import CirText.Proofs.Scope.Course

/-!
# Well-nested parts of the course of a tracker

A parser that closes every scope that it opens leaves the scopes around the current one as they are:
it only adds to the current scope and to what lies inside. `Within` says so, and it is closed under
the steps of the tracker.

When such a part is broken off and all its scopes are closed early, some names are not defined that
the complete part defines. `Behind` relates the two outcomes: whatever waits for a verdict after the
broken-off part also waits after the complete one, or has a meaning there.
-/

namespace CirText

/-- Whether a use in one of the scopes has a meaning. -/
def SymbolTable.Knows (table : SymbolTable) (reference : Reference) : Prop :=
  reference.scope < table.scopes.size ∧ (table.resolve reference).isSome

namespace Tracker

/-- Whether the state of a tracker comes about by its steps. -/
def Sound (tracker : Tracker) : Prop :=
  ∃ uses verdicts, Accounted tracker uses verdicts

theorem Sound.start : Sound .start :=
  ⟨[], [], .start⟩

theorem Sound.course {first last : Tracker} {uses : List Reference} {verdicts : List Unresolved}
    (sound : first.Sound) (steps : Course first uses verdicts last) : last.Sound := by
  obtain ⟨earlier, judged, accounted⟩ := sound
  exact ⟨_, _, accounted.course steps⟩

theorem Sound.push {tracker : Tracker} (sound : tracker.Sound) : tracker.push.Sound :=
  sound.course (.push .refl)

/-! ## Well-nested parts -/

/-- How the tracker before a part in which all scopes are closed again is related to the tracker
after it. In a contained part nothing is added to the current scope either. -/
structure Within (contained : Bool) (before after : Tracker) : Prop where
  /-- The scopes around the current one have not changed, and neither have the uses in them. -/
  outer : after.outer = before.outer
  /-- The current scope is the same. -/
  scope : after.scope = before.scope
  /-- No scope is lost. -/
  size : before.table.scopes.size ≤ after.table.scopes.size
  /-- The tables of the scopes around have not changed. -/
  around : ∀ id ∈ before.outer.map (·.scope), after.table.scope id = before.table.scope id
  /-- In a contained part the table of the current scope has not changed. -/
  here : contained = true → after.table.scope before.scope = before.table.scope before.scope
  /-- The uses of the current scope go on waiting. -/
  waiting : before.current.waiting.toList ⊆ after.current.waiting.toList
  /-- The uses of symbols go on waiting. -/
  symbolUses : before.symbolUses.toList ⊆ after.symbolUses.toList
  /-- What has a meaning keeps one. -/
  knows : ∀ reference, before.table.Knows reference → after.table.Knows reference

namespace Within

variable {contained : Bool} {first before middle after last : Tracker}

theorem refl (tracker : Tracker) : Within contained tracker tracker where
  outer := rfl
  scope := rfl
  size := Nat.le_refl _
  around _ _ := rfl
  here _ := rfl
  waiting := List.Subset.refl _
  symbolUses := List.Subset.refl _
  knows _ known := known

theorem trans (left : Within contained first middle) (right : Within contained middle last) :
    Within contained first last where
  outer := right.outer.trans left.outer
  scope := right.scope.trans left.scope
  size := Nat.le_trans left.size right.size
  around id member := by
    have later := right.around id (left.outer.symm ▸ member)
    rw [later, left.around id member]
  here h := by
    have later := right.here h
    rw [left.scope] at later
    rw [later, left.here h]
  waiting := List.Subset.trans left.waiting right.waiting
  symbolUses := List.Subset.trans left.symbolUses right.symbolUses
  knows reference known := right.knows reference (left.knows reference known)

theorem weaken (within : Within true before after) : Within contained before after where
  outer := within.outer
  scope := within.scope
  size := within.size
  around := within.around
  here _ := within.here rfl
  waiting := within.waiting
  symbolUses := within.symbolUses
  knows := within.knows

theorem refer (tracker : Tracker) (kind : NameKind) (name : String) (span : Span) :
    Within contained tracker (tracker.refer kind name span).2 := by
  constructor
  case waiting => cases kind <;> simp [Tracker.refer]
  case symbolUses => cases kind <;> simp [Tracker.refer]
  case knows =>
    intro reference known
    cases kind
    all_goals exact known
  all_goals cases kind <;> simp [Tracker.refer, Tracker.scope]

end Within

theorem Sound.inside {tracker : Tracker} (sound : tracker.Sound) :
    tracker.scope < tracker.table.scopes.size := by
  obtain ⟨uses, verdicts, accounted⟩ := sound
  exact accounted.inside

/-- The scopes around the current one have smaller numbers. -/
theorem Sound.lt_of_mem_outer {tracker : Tracker} (sound : tracker.Sound) {id : ScopeId}
    (member : id ∈ tracker.outer.map (·.scope)) : id < tracker.scope := by
  obtain ⟨uses, verdicts, accounted⟩ := sound
  rw [accounted.nested] at member
  exact SymbolTable.lt_of_mem_enclosing member

namespace Within

variable {contained : Bool}

/-- A definition goes into the current scope; only one of a symbol is contained. -/
theorem define {tracker : Tracker} (sound : tracker.Sound) {kind : NameKind}
    (symbols : contained = true → kind = .symbol) (name : String) (span : Span) :
    Within contained tracker (tracker.define kind name span).2.2 := by
  have inside : tracker.home kind < tracker.table.scopes.size := by
    obtain ⟨uses, verdicts, accounted⟩ := sound
    exact accounted.home_lt kind
  unfold Tracker.define
  split
  · exact refl tracker
  · constructor
    case size => exact Nat.le_of_eq (SymbolTable.size_insert _ _).symm
    case around =>
      intro id member
      rw [SymbolTable.scope_insert inside]
      cases kind with
      | symbol => simp
      | value =>
        have other : id ≠ tracker.home .value := Nat.ne_of_lt (sound.lt_of_mem_outer member)
        simp [other]
      | label =>
        have other : id ≠ tracker.home .label := Nat.ne_of_lt (sound.lt_of_mem_outer member)
        simp [other]
    case here =>
      intro isContained
      rw [SymbolTable.scope_insert inside, symbols isContained]
      simp
    case knows =>
      rintro reference ⟨existing, known⟩
      refine ⟨?_, SymbolTable.isSome_resolve_insert inside known⟩
      rw [SymbolTable.size_insert]
      exact existing
    case waiting => exact List.Subset.refl _
    case symbolUses => exact List.Subset.refl _
    all_goals rfl

/-- What happens in a scope that is opened and closed again leaves the current scope as it is. -/
theorem inScope {before inner : Tracker} (sound : before.Sound)
    (within : Within false before.push inner) : Within contained before inner.pop.1 := by
  have outer : inner.outer = before.current :: before.outer := within.outer
  have popped : inner.pop.1 =
      { inner with
        current := { before.current with
          waiting := before.current.waiting ++
            inner.current.waiting.filter (movesOut inner.table inner.scope) }
        outer := before.outer } := by
    simp only [Tracker.pop, outer]
  have old : ∀ id < before.table.scopes.size,
      id ∈ before.push.outer.map (·.scope) → inner.table.scope id = before.table.scope id := by
    intro id existing member
    rw [within.around id member]
    change (before.table.opened before.scope).scope id = _
    rw [SymbolTable.scope_opened, if_neg (Nat.ne_of_lt existing)]
  have larger : before.table.scopes.size ≤ inner.table.scopes.size := by
    have opened : before.push.table.scopes.size ≤ inner.table.scopes.size := within.size
    change (before.table.opened before.scope).scopes.size ≤ _ at opened
    rw [SymbolTable.size_opened] at opened
    exact Nat.le_of_succ_le opened
  rw [popped]
  constructor
  case outer => rfl
  case scope => rfl
  case size => exact larger
  case around =>
    intro id member
    apply old id (Nat.lt_trans (sound.lt_of_mem_outer member) sound.inside)
    exact List.mem_cons_of_mem _ member
  case here =>
    intro _
    exact old before.scope sound.inside List.mem_cons_self
  case waiting =>
    intro reference member
    simp only [Array.toList_append]
    exact List.mem_append_left _ member
  case symbolUses => exact within.symbolUses
  case knows =>
    rintro reference ⟨existing, known⟩
    apply within.knows reference
    refine ⟨SymbolTable.lt_size_opened before.scope existing, ?_⟩
    change ((before.table.opened before.scope).resolve reference).isSome
    rw [SymbolTable.resolve_opened existing]
    exact known

end Within

/-! ## Broken-off parts -/

/-- A use that waits and is defined by the scope in which it waits has a meaning. -/
theorem Sound.knows_of_waiting {tracker : Tracker} (sound : tracker.Sound) {reference : Reference}
    (waits : reference ∈ tracker.current.waiting.toList)
    (stays : movesOut tracker.table tracker.scope reference = false)
    (accepted : judge tracker.table tracker.scope reference = none) :
    tracker.table.Knows reference := by
  obtain ⟨uses, verdicts, accounted⟩ := sound
  have known := accounted.waits tracker.current List.mem_cons_self reference waits
  refine ⟨known.inside, Accounted.isSome_resolve_of_isSettledBy tracker known ?_⟩
  change (!movesOut tracker.table tracker.scope reference &&
    (judge tracker.table tracker.scope reference).isNone) = true
  rw [stays, accepted]
  rfl

/-- Whether the verdict on a label was given only because the part in which the label is defined was
broken off before the definition. -/
structure Overtaken (cut full : SymbolTable) (verdict : Unresolved) : Prop where
  kind : verdict.reference.kind = .label
  undefined : cut.labelIn verdict.reference.name verdict.reference.scope = none
  knows : full.Knows verdict.reference

theorem Overtaken.extend {cut : SymbolTable} {full later : Tracker} {verdict : Unresolved}
    {contained : Bool} (overtaken : Overtaken cut full.table verdict)
    (within : Within contained full later) : Overtaken cut later.table verdict :=
  ⟨overtaken.kind, overtaken.undefined, within.knows _ overtaken.knows⟩

/-- How the tracker after a part that was broken off is related to the one after the whole part. -/
structure Behind (cut full : Tracker) : Prop where
  /-- What still waits in the current scope waits there in the other course too, or has a
  meaning. -/
  waiting : ∀ reference ∈ cut.current.waiting.toList,
    full.table.Knows reference ∨ reference ∈ full.current.waiting.toList
  /-- The uses of symbols are uses of the other course too. -/
  symbolUses : cut.symbolUses.toList ⊆ full.symbolUses.toList

namespace Behind

variable {cut full later : Tracker}

theorem refl (tracker : Tracker) : Behind tracker tracker where
  waiting _ waits := .inr waits
  symbolUses := List.Subset.refl _

/-- The whole part may go on. -/
theorem extend {contained : Bool} (behind : Behind cut full)
    (within : Within contained full later) : Behind cut later where
  waiting reference waits :=
    (behind.waiting reference waits).imp (within.knows reference) (within.waiting ·)
  symbolUses := List.Subset.trans behind.symbolUses within.symbolUses

/-- The labels around the current scope are the same in both courses. -/
theorem labelAround_eq {before : Tracker} (soundCut : cut.Sound) (soundFull : full.Sound)
    (withinCut : Within false before cut) (withinFull : Within false before full) (name : String) :
    cut.table.labelAround name cut.scope = full.table.labelAround name full.scope := by
  obtain ⟨_, _, accountedCut⟩ := soundCut
  obtain ⟨_, _, accountedFull⟩ := soundFull
  simp only [SymbolTable.labelAround]
  rw [← accountedCut.nested, ← accountedFull.nested, withinCut.outer, withinFull.outer]
  apply SymbolTable.findSome?_congr
  intro id member
  simp only [SymbolTable.labelIn]
  rw [withinCut.around id member, withinFull.around id member]

/-- Closing the scope in both courses keeps the broken-off one behind, and it gives the same
verdicts, except for labels that are defined in the other course only. -/
theorem pop {before : Tracker} (soundCut : cut.Sound) (soundFull : full.Sound)
    (withinCut : Within false before.push cut) (withinFull : Within false before.push full)
    (behind : Behind cut full) :
    Behind cut.pop.1 full.pop.1 ∧
      ∀ verdict ∈ cut.pop.2, verdict ∈ full.pop.2 ∨ Overtaken cut.table full.table verdict := by
  have poppedOf : ∀ {inner : Tracker}, inner.outer = before.current :: before.outer →
      inner.pop =
        ({ inner with
            current := { before.current with
              waiting := before.current.waiting ++
                inner.current.waiting.filter (movesOut inner.table inner.scope) }
            outer := before.outer },
          inner.current.waiting.toList.filterMap (judge inner.table inner.scope)) := by
    intro inner outer
    simp only [Tracker.pop, outer]
  have scopeEq : cut.scope = full.scope := withinCut.scope.trans withinFull.scope.symm
  rw [poppedOf withinCut.outer, poppedOf withinFull.outer]
  constructor
  · refine ⟨?_, behind.symbolUses⟩
    intro reference waits
    simp only [Array.toList_append, Array.toList_filter, List.mem_append,
      List.mem_filter] at waits ⊢
    rcases waits with earlier | ⟨here, moves⟩
    · exact .inr (.inl earlier)
    · rcases behind.waiting reference here with known | waitsToo
      · exact .inl known
      · cases movesToo : movesOut full.table full.scope reference with
        | true => exact .inr (.inr ⟨waitsToo, rfl⟩)
        | false =>
          -- Only a value moves out, and no verdict is given on it.
          have accepted : judge full.table full.scope reference = none := by
            simp only [movesOut, Bool.and_eq_true, beq_iff_eq] at moves
            simp only [judge, moves.1]
          exact .inl (soundFull.knows_of_waiting waitsToo movesToo accepted)
  · intro verdict given
    obtain ⟨reference, here, judged⟩ := List.mem_filterMap.1 given
    obtain ⟨kind, same, undefined⟩ := Accounted.judge_eq_some judged
    have isHere : reference.scope = cut.scope := by
      obtain ⟨_, _, accounted⟩ := soundCut
      exact (accounted.waits cut.current List.mem_cons_self reference here).label kind
    have overtaken : full.table.Knows reference → Overtaken cut.table full.table verdict := by
      intro known
      refine ⟨same ▸ kind, ?_, same ▸ known⟩
      rw [same, isHere]
      exact undefined
    rcases behind.waiting reference here with known | waitsToo
    · exact .inr (overtaken known)
    · cases judgedToo : judge full.table full.scope reference with
      | none =>
        have stays : movesOut full.table full.scope reference = false := by
          simp [movesOut, kind]
        exact .inr (overtaken (soundFull.knows_of_waiting waitsToo stays judgedToo))
      | some other =>
        refine .inl (List.mem_filterMap.2 ⟨reference, waitsToo, ?_⟩)
        -- Neither course defines the label, and both see the same labels around.
        obtain ⟨_, _, undefinedToo⟩ := Accounted.judge_eq_some judgedToo
        have around := labelAround_eq soundCut soundFull withinCut withinFull reference.name
        rw [← judged]
        simp only [judge, kind, judgeLabel, undefined, undefinedToo, around]

end Behind

/-! ## The end of the module -/

/-- If no scope but that of the module is open, only the uses that wait there are left to judge. -/
theorem finish_of_outer {tracker : Tracker} (closed : tracker.outer = []) :
    tracker.finish =
      (tracker.table,
        tracker.current.waiting.toList.filterMap (judgeAtEnd tracker.table) ++
          tracker.symbolUses.toList.filterMap (judgeSymbol tracker.table)) := by
  simp only [finish, closed, List.length_nil, popMany, List.nil_append]

/-- A use that waits at the end has a meaning if no verdict is given on it. -/
theorem Sound.isSome_resolve_of_waiting {tracker : Tracker} (sound : tracker.Sound)
    (closed : tracker.outer = []) {reference : Reference}
    (waits : reference ∈ tracker.current.waiting.toList)
    (accepted : judgeAtEnd tracker.table reference = none) :
    (tracker.table.resolve reference).isSome := by
  obtain ⟨uses, verdicts, accounted⟩ := sound
  have nested := accounted.nested
  rw [closed, List.map_nil] at nested
  have atRoot : tracker.scope = ScopeId.root :=
    accounted.table.eq_root_of_enclosing_eq_nil accounted.inside nested.symm
  have rootChain : tracker.table.chain .root = [ScopeId.root] := by
    rw [SymbolTable.chain, ← atRoot, ← nested]
  have known := accounted.waits tracker.current List.mem_cons_self reference waits
  change tracker.Waits tracker.scope reference at known
  rw [atRoot] at known
  rw [judgeAtEnd_eq known rootChain] at accepted
  by_contra unknown
  rw [if_neg unknown] at accepted
  cases accepted

theorem judgeAtEnd_eq_some {table : SymbolTable} {reference : Reference} {verdict : Unresolved}
    (h : judgeAtEnd table reference = some verdict) : verdict = ⟨reference, .notDefined⟩ := by
  by_cases accepted : judgeAtEnd table reference = none
  · rw [accepted] at h
    cases h
  · simp only [judgeAtEnd] at h accepted
    rw [if_neg fun defined => accepted (if_pos defined)] at h
    cases h
    rfl

theorem judgeSymbol_eq_some {table : SymbolTable} {reference : Reference} {verdict : Unresolved}
    (h : judgeSymbol table reference = some verdict) : verdict = ⟨reference, .undeclared⟩ := by
  rw [judgeSymbol] at h
  split at h
  · cases h
  · cases h
    rfl

/-- The verdicts at the end of a course that was broken off are also given at the end of the other
course, except on names that only the other course defines. -/
theorem Behind.finish {cut full : Tracker} (behind : Behind cut full) (soundFull : full.Sound)
    (closedCut : cut.outer = []) (closedFull : full.outer = []) {verdict : Unresolved}
    (given : verdict ∈ cut.finish.2) :
    verdict ∈ full.finish.2 ∨ (full.table.resolve verdict.reference).isSome := by
  rw [finish_of_outer closedCut] at given
  rw [finish_of_outer closedFull]
  rcases List.mem_append.1 given with waiting | symbol
  · obtain ⟨reference, waits, judged⟩ := List.mem_filterMap.1 waiting
    obtain rfl := judgeAtEnd_eq_some judged
    rcases behind.waiting reference waits with known | waitsToo
    · exact .inr known.2
    · cases judgedToo : judgeAtEnd full.table reference with
      | none => exact .inr (soundFull.isSome_resolve_of_waiting closedFull waitsToo judgedToo)
      | some other =>
        obtain rfl := judgeAtEnd_eq_some judgedToo
        exact .inl (List.mem_append_left _ (List.mem_filterMap.2 ⟨reference, waitsToo, judgedToo⟩))
  · obtain ⟨reference, used, judged⟩ := List.mem_filterMap.1 symbol
    have usedToo := behind.symbolUses used
    have isSymbol : reference.kind = .symbol := by
      obtain ⟨_, _, accounted⟩ := soundFull
      exact accounted.symbolUses reference usedToo
    simp only [judgeSymbol] at judged
    split at judged
    · cases judged
    · cases judged
      by_cases known : (full.table.symbol reference.name).isSome = true
      · right
        rw [SymbolTable.resolve, isSymbol]
        exact known
      · left
        apply List.mem_append_right
        refine List.mem_filterMap.2 ⟨reference, usedToo, ?_⟩
        rw [judgeSymbol, if_neg known]

end Tracker

end CirText
