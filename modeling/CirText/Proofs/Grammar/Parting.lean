import CirText.Proofs.Parser.Parting

/-!
# Grammars of texts that part

A grammar is tame if it never asks right behind what it describes for a token with which something
may start that comes behind an operation. What is read by a tame grammar does not depend on what
that is. All operations are tame as long as no value comes behind them; of those that do not end a
block only the reservation of a stack slot is not tame if one does.
-/

namespace CirText

open CirText.Parser

variable {R : Type}

/-- Whether a stack slot is reserved with nothing but the types, behind which comes a comma. -/
def Body.isBareSlot (body : Body R) : Bool :=
  match body.payload with
  | .instruction (.alloca _ _ count slot result) =>
    count.isNone && slot.isNone && body.extra.isNone && result.isNone
  | _ => false

namespace Grammar

/-! ## Tame grammars -/

/-- Whether nothing is asked behind what a grammar describes that what may come behind an operation
satisfies. Unless values may come there, it does not matter whether they are asked for. -/
def tame (values : Bool) : {α : Type} → Grammar R α → Bool
  | _, .seq first second => second.tame values && (second.consumes || first.tame values)
  | _, .optional present inner =>
    (present.isForeign || !values && present.class_ == .value && inner.consumes) &&
      inner.tame values
  | _, .choice isFirst first second =>
    (isFirst.isForeign || first.consumes && second.consumes) &&
      (first.tame values && second.tame values)
  | _, .repeated next item => next.isForeign && item.tame values
  | _, .view _ inner | _, .separated inner | _, .listed inner | _, .listedWithEllipsis inner
  | _, .bracketed _ inner | _, .spanned inner | _, .binder _ inner | _, .inScope inner
  | _, .recommended _ _ inner => inner.tame values
  | _, _ => true

/-- Whether the parts of a grammar whose places are noted are never empty. -/
def anchored : {α : Type} → Grammar R α → Bool
  | _, .seq first second | _, .choice _ first second => first.anchored && second.anchored
  | _, .spanned inner => inner.consumes && inner.anchored
  | _, .view _ inner | _, .optional _ inner | _, .separated inner | _, .listed inner
  | _, .listedWithEllipsis inner | _, .bracketed _ inner | _, .repeated _ inner | _, .binder _ inner
  | _, .inScope inner | _, .recommended _ _ inner => inner.anchored
  | _, _ => true

theorem body_anchored (opcode : Opcode) (form : Form) :
    (body (R := R) opcode form).anchored = true := by
  unfold body
  split <;> rfl

/-- Only four operations ask for a value at their end, and three of them end a block. -/
theorem body_tame (opcode : Opcode) (form : Form)
    (other : opcode ∉ [Opcode.alloca, .ret, .yield, .throw]) :
    (body (R := R) opcode form).tame true = true := by
  unfold body
  split <;> first | rfl | exact absurd (by simp) other

/-- At their end operations ask for nothing but values. -/
theorem body_tame_values (opcode : Opcode) (form : Form) :
    (body (R := R) opcode form).tame false = true := by
  unfold body
  split <;> rfl

end Grammar

/-! ## What grammars read -/

namespace Fork

variable {fork : Fork} {parser : RegionKind → Bool → Parser R}
  {region : RegionKind → Bool → Meaning R}

theorem reads_optional_some {α : Type} {present : Guard} {inner : Grammar R α} {source : List Char}
    {before after : Stage} {a : α} (here : present.holds before.cursor = true)
    (reads : inner.Reads region source before a after) :
    (Grammar.optional present inner).Reads region source before (some a) after := by
  rw [Grammar.Reads]
  dsimp only
  rw [if_pos here]
  exact ⟨a, reads, rfl⟩

theorem reads_optional_none {α : Type} {present : Guard} {inner : Grammar R α} {source : List Char}
    {stage : Stage} (absent : present.holds stage.cursor = false) :
    (Grammar.optional present inner).Reads region source stage none stage := by
  rw [Grammar.Reads]
  dsimp only
  rw [absent]
  exact ⟨rfl, rfl⟩

/-! ### Parts of grammars -/

section

variable {α β : Type} {first inner : Grammar R α} {second : Grammar R β} {tame : Prop}

/-- The definition of a name. -/
theorem persists_definition (kind : NameKind) :
    fork.Persists ((Grammar.definition kind).Reads region) tame := by
  rintro before after twin defined taken left ⟨found, middle, ⟨isName, passes⟩, defines⟩
    abreast rest _
  have toAfter : middle.Leads after := (Means.define kind found).leads fork.source _ _ _ defines
  obtain ⟨more, restMiddle, _⟩ := left_of_leads toAfter rest
  obtain ⟨next, passesAgain, midway⟩ := abreast.passes passes restMiddle
  obtain ⟨last, definesAgain, done⟩ := midway.defines defines rest
  exact ⟨last, ⟨found, next, ⟨isName, passesAgain⟩, definesAgain⟩, done⟩

/-- One part after another. The first one has to be tame only if the second one may be empty. -/
theorem persists_seq {parser : Parser β} {tameFirst tameSecond : Prop}
    (means : Means parser (second.Reads region))
    (persistsFirst : fork.Persists (first.Reads region) tameFirst)
    (persistsSecond : fork.Persists (second.Reads region) tameSecond) (isTame : tame → tameSecond)
    (either : tame → tameFirst ∨ (second.Reads region).Progresses) :
    fork.Persists ((Grammar.seq first second).Reads region) tame := by
  rintro before after twin both taken left ⟨middle, readsFirst, readsSecond⟩ abreast rest ends
  obtain ⟨more, restMiddle, parts⟩ := left_of_leads (means.leads _ _ _ _ readsSecond) rest
  have firstTame : more = [] → tameFirst := by
    intro parted
    refine (either (ends (parts parted))).resolve_right fun progresses => ?_
    have fewer := progresses _ _ _ _ readsSecond
    rw [restMiddle, rest, parted, parts parted] at fewer
    exact Nat.lt_irrefl _ fewer
  obtain ⟨between, firstAgain, midway⟩ := persistsFirst readsFirst abreast restMiddle firstTame
  obtain ⟨last, secondAgain, done⟩ := persistsSecond readsSecond midway rest (isTame ∘ ends)
  exact ⟨last, ⟨between, firstAgain, secondAgain⟩, done⟩

/-- An optional part, if what it is asked for by tells the texts not apart or is a value that does
not come. -/
theorem persists_optional {parser : Parser (Option α)} {present : Guard} {values : Bool}
    (means : Means parser ((Grammar.optional present inner).Reads region))
    (progresses : inner.consumes = true → (inner.Reads region).Progresses)
    (meets : fork.MeetsValue → values = true) (persists : fork.Persists (inner.Reads region) tame)
    (asks : tame → fork.Decides present ∨ values = false ∧ present.class_ = .value ∧
      inner.consumes = true) : fork.Persists ((Grammar.optional present inner).Reads
      region) tame := by
  intro before after twin found taken left reads abreast rest isTame
  have asks : taken = [] → fork.Decides present ∨
      values = false ∧ present.class_ = .value ∧ inner.consumes = true := by
    intro parted
    obtain ⟨more, restBefore, parts⟩ := left_of_leads (means.leads _ _ _ _ reads) rest
    obtain rfl := abreast.left_unique restBefore
    exact asks (isTame (parts parted))
  rw [Grammar.Reads] at reads
  split at reads
  · rename_i here
    obtain ⟨a, reads, rfl⟩ := reads
    have same : present.holds twin.cursor = present.holds before.cursor := by
      refine abreast.holds_eq present fun parted => (asks parted).resolve_right ?_
      rintro ⟨_, _, consumes⟩
      exact abreast.ne_nil rest (progresses consumes _ _ _ _ reads) parted
    obtain ⟨last, again, done⟩ := persists reads abreast rest isTame
    exact ⟨last, reads_optional_some (same.trans here) again, done⟩
  · rename_i absent
    obtain ⟨rfl, rfl⟩ := reads
    obtain rfl := abreast.left_unique rest
    refine ⟨twin, reads_optional_none ?_, abreast⟩
    by_cases decided : taken = [] → fork.Decides present
    · exact (abreast.holds_eq present decided).trans (Bool.eq_false_iff.2 absent)
    · obtain ⟨parted, open_⟩ := Classical.not_imp.1 decided
      obtain ⟨none_, isValue, _⟩ := (asks parted).resolve_left open_
      refine abreast.noValue parted isValue fun value => ?_
      rw [meets value] at none_
      cases none_

/-- One of two parts, if the condition between them tells the texts not apart or neither is
empty. -/
theorem persists_choice {parser : Parser (α ⊕ β)} {isFirst : Guard}
    (means : Means parser ((Grammar.choice isFirst first second).Reads region))
    (asks : tame → fork.Decides isFirst ∨
      ((Grammar.choice isFirst first second).Reads region).Progresses)
    (persistsFirst : fork.Persists (first.Reads region) tame)
    (persistsSecond : fork.Persists (second.Reads region) tame) :
    fork.Persists ((Grammar.choice isFirst first second).Reads region) tame := by
  intro before after twin either taken left reads abreast rest isTame
  have same : isFirst.holds twin.cursor = isFirst.holds before.cursor := by
    refine abreast.holds_eq isFirst fun parted => ?_
    obtain ⟨more, restBefore, parts⟩ := left_of_leads (means.leads _ _ _ _ reads) rest
    obtain rfl := abreast.left_unique restBefore
    exact (asks (isTame (parts parted))).resolve_right fun progresses =>
      abreast.ne_nil rest (progresses _ _ _ _ reads) parted
  unfold Grammar.Reads at reads ⊢
  simp only [same]
  split at reads
  · rename_i here
    simp only [if_pos here]
    obtain ⟨a, reads, rfl⟩ := reads
    obtain ⟨last, again, done⟩ := persistsFirst reads abreast rest isTame
    exact ⟨last, ⟨a, again, rfl⟩, done⟩
  · rename_i absent
    simp only [if_neg absent]
    obtain ⟨b, reads, rfl⟩ := reads
    obtain ⟨last, again, done⟩ := persistsSecond reads abreast rest isTame
    exact ⟨last, ⟨b, again, rfl⟩, done⟩

/-- A list in brackets. -/
theorem persists_bracketed {parser : Parser α} (means : Means parser (inner.Reads region))
    (persists : fork.Persists (inner.Reads region) tame) (separator : Separator) :
    fork.Persists ((Grammar.bracketed separator inner).Reads region) tame := by
  rintro before after twin items taken left ⟨opening, middle, ⟨isOpening, passes⟩, reads⟩
    abreast rest isTame
  obtain ⟨more, restMiddle, _⟩ := left_of_leads (reads.leads means.leads) rest
  obtain ⟨next, passesAgain, midway⟩ := abreast.passes passes restMiddle
  obtain ⟨last, again, done⟩ := Persists.bracketed means persists separator reads midway rest isTame
  exact ⟨last, ⟨opening, next, ⟨isOpening, passesAgain⟩, again⟩, done⟩

/-- A part whose place is noted and that is not empty. -/
theorem persists_spanned (progresses : (inner.Reads region).Progresses)
    (persists : fork.Persists (inner.Reads region) tame) :
    fork.Persists ((Grammar.spanned inner).Reads region) tame := by
  rintro before after twin found taken left ⟨reads, place⟩ abreast rest isTame
  obtain ⟨last, again, done⟩ := persists reads abreast rest isTame
  have shared : taken ≠ [] := abreast.ne_nil rest (progresses _ _ _ _ reads)
  exact ⟨last, ⟨again, place.trans (abreast.spanBetween_eq shared done).symm⟩, done⟩

/-- A value that is defined behind what it is defined by. -/
theorem persists_binder {parser : Parser α} (means : Means parser (inner.Reads region))
    (persists : fork.Persists (inner.Reads region) tame) (what : String) :
    fork.Persists ((Grammar.binder what inner).Reads region) tame := by
  rintro before after twin bound taken left ⟨found, middle, inside, ⟨isValue, passes⟩,
    reads, defines⟩ abreast rest isTame
  have toAfter : inside.Leads after := (Means.define .value found).leads fork.source _ _ _ defines
  obtain ⟨later, restInside, parts⟩ := left_of_leads toAfter rest
  obtain ⟨more, restMiddle, _⟩ := left_of_leads (means.leads _ _ _ _ reads) restInside
  obtain ⟨next, passesAgain, midway⟩ := abreast.passes passes restMiddle
  obtain ⟨between, again, bound⟩ := persists reads midway restInside (isTame ∘ parts)
  obtain ⟨last, definesAgain, done⟩ := bound.defines defines rest
  exact ⟨last, ⟨found, next, between, ⟨isValue, passesAgain⟩, again, definesAgain⟩, done⟩

/-- A part in a scope of its own. -/
theorem persists_inScope (persists : fork.Persists (inner.Reads region) tame) :
    fork.Persists ((Grammar.inScope inner).Reads region) tame := by
  rintro before _ twin a taken left ⟨inside, reads, resolved, rfl⟩ abreast rest isTame
  have pushed := abreast.withTracker (congrArg Tracker.push abreast.tracker)
  obtain ⟨last, again, done⟩ := persists reads pushed rest isTame
  have sameTracker := done.tracker
  refine ⟨{ last with tracker := last.tracker.pop.1 }, ⟨last, again, ?_, rfl⟩, done.withTracker ?_⟩
  · rw [sameTracker, resolved]
  · rw [sameTracker]

end

/-- What a grammar reads in one text it reads in the other as well, if it is tame, or no condition
tells the texts apart where they part, or they do not part right behind it. -/
theorem reads_persists
    (regions : ∀ kind implicitTerminator,
      Means (parser kind implicitTerminator) (region kind implicitTerminator))
    (inner : ∀ kind implicitTerminator, fork.Persists (region kind implicitTerminator) True)
    {values : Bool} (meets : fork.MeetsValue → values = true) {α : Type} (grammar : Grammar R α)
    (steady : grammar.steady = true) (anchored : grammar.anchored = true) :
    fork.Persists (grammar.Reads region) (fork.Settled ∨ grammar.tame values = true) := by
  have means : ∀ {α : Type} (grammar : Grammar R α), grammar.steady = true →
      ∃ parser : Parser α, Means parser (grammar.Reads region) ∧
        (grammar.consumes = true → (grammar.Reads region).Progresses) := by
    intro α grammar steady
    obtain ⟨means, progresses⟩ := Grammar.parse_means ⟨[], 0, none, 0⟩ regions grammar steady
    exact ⟨_, means, progresses⟩
  induction grammar with
  | blank =>
    rintro before _ twin _ taken left rfl abreast rest _
    obtain rfl := abreast.left_unique rest
    exact ⟨twin, rfl, abreast⟩
  | punct mark | word text =>
    rintro before after twin _ taken left ⟨found, accepts, passes⟩ abreast rest _
    obtain ⟨last, again, done⟩ := abreast.passes passes rest
    exact ⟨last, ⟨found, accepts, again⟩, done⟩
  | lexeme kind what | oneOf words what => exact .token
  | name kind => exact .name kind
  | definition kind => exact persists_definition kind
  | type => exact .type
  | attributeOf form => exact .attributeOf form
  | namedAttribute => exact .namedAttribute
  | trailingAttribute => exact .trailingAttribute
  | seq first second ihFirst ihSecond =>
    obtain ⟨steadyFirst, steadySecond⟩ := Bool.and_eq_true_iff.1 steady
    obtain ⟨anchoredFirst, anchoredSecond⟩ := Bool.and_eq_true_iff.1 anchored
    obtain ⟨_, secondMeans, progresses⟩ := means second steadySecond
    refine persists_seq secondMeans (ihFirst steadyFirst anchoredFirst)
      (ihSecond steadySecond anchoredSecond)
      (.imp_right fun tame => (Bool.and_eq_true_iff.1 tame).1) ?_
    rintro (settled | tame)
    · exact .inl (.inl settled)
    · rcases Bool.or_eq_true_iff.1 (Bool.and_eq_true_iff.1 tame).2 with consumes | tame
      · exact .inr (progresses consumes)
      · exact .inl (.inr tame)
  | view as inner ih =>
    rintro before after twin _ taken left ⟨a, reads, rfl⟩ abreast rest isTame
    obtain ⟨last, again, done⟩ := ih steady anchored reads abreast rest isTame
    exact ⟨last, ⟨a, again, rfl⟩, done⟩
  | optional present inner ih =>
    obtain ⟨_, optionalMeans, _⟩ := means (.optional present inner) steady
    obtain ⟨_, _, progresses⟩ := means inner steady
    refine persists_optional optionalMeans progresses meets ((ih steady anchored).mono ?_) ?_
    · exact .imp_right fun tame => (Bool.and_eq_true_iff.1 tame).2
    · rintro (settled | tame)
      · exact .inl (settled present)
      · have asks := (Bool.and_eq_true_iff.1 tame).1
        rw [Bool.or_eq_true] at asks
        exact asks.imp decides_of_foreign fun none_ => by
          simpa [Bool.and_eq_true, and_assoc] using none_
  | choice isFirst first second ihFirst ihSecond =>
    obtain ⟨_, choiceMeans, progresses⟩ := means (.choice isFirst first second) steady
    obtain ⟨steadyFirst, steadySecond⟩ := Bool.and_eq_true_iff.1 steady
    obtain ⟨anchoredFirst, anchoredSecond⟩ := Bool.and_eq_true_iff.1 anchored
    refine persists_choice choiceMeans ?_ ((ihFirst steadyFirst anchoredFirst).mono ?_)
      ((ihSecond steadySecond anchoredSecond).mono ?_)
    · rintro (settled | tame)
      · exact .inl (settled isFirst)
      · exact (Bool.or_eq_true_iff.1 (Bool.and_eq_true_iff.1 tame).1).imp
          decides_of_foreign progresses
    · exact .imp_right fun tame => (Bool.and_eq_true_iff.1 (Bool.and_eq_true_iff.1 tame).2).1
    · exact .imp_right fun tame => (Bool.and_eq_true_iff.1 (Bool.and_eq_true_iff.1 tame).2).2
  | separated item ih =>
    obtain ⟨_, itemMeans, _⟩ := means item steady
    exact .separated itemMeans (ih steady anchored)
  | listed item ih =>
    obtain ⟨_, itemMeans, _⟩ := means item steady
    exact .listed itemMeans (ih steady anchored)
  | listedWithEllipsis item ih =>
    obtain ⟨_, itemMeans, _⟩ := means item steady
    exact .listedWithEllipsis itemMeans (ih steady anchored)
  | bracketed separator item ih =>
    obtain ⟨_, steady⟩ := Bool.and_eq_true_iff.1 steady
    obtain ⟨_, itemMeans, _⟩ := means item steady
    exact persists_bracketed itemMeans (ih steady anchored) separator
  | repeated next item ih =>
    obtain ⟨consumes, steady⟩ := Bool.and_eq_true_iff.1 steady
    obtain ⟨_, itemMeans, progresses⟩ := means item steady
    refine .repeated itemMeans ?_ (progresses consumes) ?_
    · exact (ih steady anchored).mono fun isTame => isTame.imp id fun tame =>
        (Bool.and_eq_true_iff.1 tame).2
    · rintro (settled | tame)
      · exact settled next
      · exact decides_of_foreign (Bool.and_eq_true_iff.1 tame).1
  | modifierRun table =>
    rintro before after twin _ taken left ⟨modifiers, reads, rfl⟩ abreast rest isTame
    obtain ⟨last, again, done⟩ := Persists.modifiers table.rules [] reads abreast rest isTame
    exact ⟨last, ⟨modifiers, again, rfl⟩, done⟩
  | spanned inner ih =>
    obtain ⟨consumes, anchored⟩ := Bool.and_eq_true_iff.1 anchored
    obtain ⟨_, _, progresses⟩ := means inner steady
    exact persists_spanned (progresses consumes) (ih steady anchored)
  | binder what inner ih =>
    obtain ⟨_, innerMeans, _⟩ := means inner steady
    exact persists_binder innerMeans (ih steady anchored) what
  | inScope inner ih => exact persists_inScope (ih steady anchored)
  | region kind implicitTerminator =>
    exact (inner kind implicitTerminator).mono fun _ => trivial
  | recommended opcode warning inner ih => exact ih steady anchored

/-- Behind an operation nothing is read for an optional part. -/
theorem none_of_follows {α : Type} {present : Guard} {inner : Grammar R α} {source : List Char}
    {before after : Stage} {found : Option α} (follows : FollowsOperation before.cursor.rest)
    (foreign : present.isForeign = true)
    (reads : (Grammar.optional present inner).Reads region source before found after) :
    found = none ∧ after = before := by
  rw [Grammar.Reads, follows.holds foreign] at reads
  exact reads

/-- Behind an operation nothing is read for a trailing attribute. -/
theorem none_of_follows_trailing {source : List Char} {before after : Stage}
    {found : Option AttributeText}
    (follows : FollowsOperation before.cursor.rest)
    (reads : TrailingAttributeReads source before found after) : found = none ∧ after = before := by
  have noName : (Guard.kind .attributeName).holds before.cursor = false := follows.holds rfl
  have noBrace : (Guard.punct .leftBrace).holds before.cursor = false := follows.holds rfl
  have noAlias : before.cursor.atAttributeAlias = false := by
    rw [Cursor.atAttributeAlias, Token.isAttributeAlias,
      show (before.cursor.peek.kind == .attributeName) = false from noName]
    rfl
  rw [TrailingAttributeReads, noAlias, show before.cursor.atPunct .leftBrace =
    false from noBrace] at reads
  exact reads

/-- The reservation of a stack slot is read in the other text as well, if it is not bare or if no
value comes there. -/
theorem alloca_persists
    (regions : ∀ kind implicitTerminator,
      Means (parser kind implicitTerminator) (region kind implicitTerminator))
    (inner : ∀ kind implicitTerminator, fork.Persists (region kind implicitTerminator) True)
    {before after twin : Stage} {b : Body R} {taken left : List Token}
    (reads : Grammar.alloca.Reads region fork.source before b after)
    (abreast : fork.Abreast taken before twin) (rest : after.rest = left ++ fork.behind)
    (follows : FollowsOperation fork.behind) (noBare : left = [] → b.isBareSlot = false) :
    ∃ last, Grammar.alloca.Reads region fork.other twin b last ∧ fork.Abreast left after last := by
  obtain ⟨⟨allocated, address, count, slot, extra, result⟩,
    ⟨first, readsAllocated, second, readsAddress, third, readsCount, readsRest⟩, rfl⟩ := reads
  dsimp only at readsAllocated readsAddress readsCount readsRest
  have persists : ∀ {α : Type} (grammar : Grammar R α), grammar.steady = true →
      grammar.anchored = true → fork.Persists (grammar.Reads region) (grammar.tame true = true) :=
    fun grammar steady anchored =>
      (reads_persists regions inner (fun _ => rfl) grammar steady anchored).mono .inr
  have leads : ∀ {α : Type} (grammar : Grammar R α), grammar.steady = true → ∀ {before after a},
      grammar.Reads region fork.source before a after → before.Leads after :=
    fun grammar steady _ _ _ =>
      (Grammar.parse_means ⟨[], 0, none, 0⟩ regions grammar steady).1.leads _ _ _ _
  obtain ⟨later, restThird, parts⟩ := left_of_leads (leads _ rfl readsRest) rest
  obtain ⟨more, restSecond, _⟩ := left_of_leads (leads _ rfl readsCount) restThird
  obtain ⟨shared, restFirst, _⟩ := left_of_leads (leads _ rfl readsAddress) restSecond
  obtain ⟨one, allocatedAgain, past⟩ :=
    persists _ rfl rfl readsAllocated abreast restFirst fun _ => rfl
  obtain ⟨two, addressAgain, midway⟩ := persists _ rfl rfl readsAddress past restSecond fun _ => rfl
  have counted : ∃ three, (Grammar.optional (.kind .value) (Grammar.spaced (Grammar.followedBy
      Grammar.typedValue (.punct .comma)))).Reads region fork.other two count three ∧
        fork.Abreast later third three := by
    rw [Grammar.Reads] at readsCount
    split at readsCount
    · rename_i here
      obtain ⟨counting, readsCounting, rfl⟩ := readsCount
      have consumed :=
        (Grammar.parse_means ⟨[], 0, none, 0⟩ regions _ rfl).2 rfl _ _ _ _ readsCounting
      have unparted : more ≠ [] := midway.ne_nil restThird consumed
      obtain ⟨three, again, almost⟩ :=
        persists _ rfl rfl readsCounting midway restThird fun _ => rfl
      have same := midway.holds_eq (.kind .value) fun parted => absurd parted unparted
      exact ⟨three, reads_optional_some (same.trans here) again, almost⟩
    · rename_i absent
      obtain ⟨rfl, rfl⟩ := readsCount
      obtain rfl := midway.left_unique restThird
      refine ⟨two, reads_optional_none ?_, midway⟩
      have unparted : more ≠ [] := by
        -- Otherwise nothing else is read of the slot, so that it is bare.
        intro parted
        rw [parted, List.nil_append] at restThird
        have follows : FollowsOperation third.cursor.rest := by
          rw [show third.cursor.rest = _ from restThird]
          exact follows
        obtain ⟨fourth, readsSlot, fifth, readsExtra, readsResult⟩ := readsRest
        obtain ⟨rfl, rfl⟩ := none_of_follows follows rfl readsSlot
        obtain ⟨rfl, rfl⟩ := none_of_follows_trailing follows readsExtra
        obtain ⟨rfl, rfl⟩ := none_of_follows follows rfl readsResult
        have isBare := noBare (parts parted)
        cases isBare
      exact (midway.holds_eq (.kind .value) fun none => absurd none unparted).trans
        (Bool.eq_false_iff.2 absent)
  obtain ⟨three, countAgain, almost⟩ := counted
  obtain ⟨last, restAgain, done⟩ := persists _ rfl rfl readsRest almost rest fun _ => rfl
  exact ⟨last, ⟨(allocated, address, count, slot, extra, result),
    ⟨one, allocatedAgain, two, addressAgain, three, countAgain, restAgain⟩, rfl⟩, done⟩

end Fork

end CirText
