import CirText.Grammar.Operation
import CirText.Grammar.Parse
import CirText.Proofs.Parser.Meaning

/-!
# What grammars read when nothing is wrong

`Grammar.Reads` says without a parser which values a grammar reads from where to where: which tokens
come, in which order, what decides between alternatives, which names are defined and used, and which
text is taken over. It is shown to be the meaning of `Grammar.parse`.
-/

namespace CirText

namespace Parser

variable {α : Type}

/-! ## Types and attributes -/

/-- Whether the text that a reader of a sublanguage accepts is taken over. -/
def Stage.Embeds (source : List Char) (read : (tokens : List Token) → Reader.Reading tokens)
    (before : Stage) (text : String) (span : Span) (after : Stage) : Prop :=
  ∃ rest, read before.rest = .ok rest ∧
    after = { before with cursor := before.cursor.advanceTo rest } ∧
    span = before.cursor.spanBetween after.cursor ∧ text = String.ofList (span.slice source)

/-- A type is read. -/
def TypeReads : Meaning TypeText := fun source before written after =>
  before.Embeds source Reader.type written.text written.span after

/-- An attribute of a form is read. -/
def AttributeReads (form : AttributeForm) : Meaning AttributeText :=
  fun source before value after =>
    value.form = form ∧ before.Embeds source (Reader.ofForm form) value.text value.span after

/-- An attribute alias or an attribute of a dialect is read. -/
def NamedAttributeReads : Meaning AttributeText := fun source before value after =>
  if before.cursor.atAttributeAlias then AttributeReads .aliasName source before value after
  else before.cursor.atKind .attributeName = true ∧
    AttributeReads .dialect source before value after

/-- An optional alias or dictionary is read. -/
def TrailingAttributeReads : Meaning (Option AttributeText) := fun source before found after =>
  if before.cursor.atAttributeAlias then
    ∃ value, AttributeReads .aliasName source before value after ∧ found = some value
  else if before.cursor.atPunct .leftBrace then
    ∃ value, AttributeReads .dictionary source before value after ∧ found = some value
  else found = none ∧ after = before

namespace Means

theorem typeReads : Means Parser.type TypeReads := by
  refine type.congr fun source before written after => ?_
  unfold Cursor.readType TypeReads Stage.Embeds
  constructor
  · rintro ⟨cursor, read, rfl⟩
    split at read
    · cases read
    · rename_i rest found
      cases read
      exact ⟨rest, found, rfl, rfl, rfl⟩
  · rintro ⟨rest, found, rfl, same, taken⟩
    refine ⟨before.cursor.advanceTo rest, ?_, rfl⟩
    rw [show Reader.type before.cursor.rest = .ok rest from found]
    obtain ⟨text, span⟩ := written
    dsimp only at same taken
    subst same taken
    rfl

theorem attributeReads (form : AttributeForm) :
    Means (Parser.attributeOf form) (AttributeReads form) := by
  refine (attributeOf form).congr fun source before value after => ?_
  unfold Cursor.readAttribute AttributeReads Stage.Embeds
  constructor
  · rintro ⟨cursor, read, rfl⟩
    split at read
    · cases read
    · rename_i rest found
      cases read
      exact ⟨rfl, rest, found, rfl, rfl, rfl⟩
  · rintro ⟨sameForm, rest, found, rfl, same, taken⟩
    refine ⟨before.cursor.advanceTo rest, ?_, rfl⟩
    rw [show Reader.ofForm form before.cursor.rest = .ok rest from found]
    obtain ⟨text, _, span⟩ := value
    dsimp only at same taken sameForm
    subst same taken sameForm
    rfl

theorem namedAttributeReads : Means Parser.namedAttribute NamedAttributeReads := by
  refine (cursor fun here => ite (fun _ => attributeReads .aliasName) fun _ =>
    ite (fun _ => attributeReads .dialect) fun _ => expected _).congr
      fun source before value after => ?_
  unfold NamedAttributeReads
  split
  · exact .rfl
  · split
    · rename_i here
      exact ⟨fun related => ⟨here, related⟩, fun related => related.2⟩
    · rename_i absent
      exact ⟨False.elim, fun related => absurd related.1 absent⟩

theorem trailingAttributeReads : Means Parser.trailingAttribute TrailingAttributeReads := by
  refine (cursor fun here => ite (fun _ => (attributeReads .aliasName).map) fun _ =>
    ite (fun _ => (attributeReads .dictionary).map) fun _ => pure none).congr
      fun source before value after => ?_
  unfold TrailingAttributeReads
  split
  · exact .rfl
  · split <;> exact .rfl

end Means

/-! ## Lists -/

/-- The stage after an optional comma. -/
def Stage.pastComma (stage : Stage) : Stage :=
  if stage.cursor.atPunct .comma then stage.next else stage

/-- The stage after what stands between the items of a bracketed list. -/
def Stage.pastSeparator (stage : Stage) : Separator → Stage
  | .comma => stage.pastComma
  | .blank => stage

/-- Items each of which comes after a comma. -/
inductive TailReads (item : Meaning α) (source : List Char) : Stage → List α → Stage → Prop where
  /-- No further comma. -/
  | nil {stage : Stage} (ends : stage.cursor.atPunct .comma = false) :
      TailReads item source stage [] stage
  /-- Another item. -/
  | cons {before middle after : Stage} {a : α} {items : List α}
      (comma : before.cursor.atPunct .comma = true) (first : item source before.next a middle)
      (rest : TailReads item source middle items after) :
      TailReads item source before (a :: items) after

/-- At least one item, separated by commas. -/
def SeparatedReads (item : Meaning α) : Meaning (α × List α) := fun source before found after =>
  ∃ middle, item source before found.1 middle ∧ TailReads item source middle found.2 after

/-- Items separated by commas before a closing parenthesis. -/
inductive ListedReads (item : Meaning α) (source : List Char) : Stage → List α → Stage → Prop where
  /-- No item. -/
  | nil {stage : Stage} (ends : stage.cursor.atPunct .rightParen = true) :
      ListedReads item source stage [] stage
  /-- At least one item. -/
  | cons {before after : Stage} {a : α} {items : List α}
      (inside : before.cursor.atPunct .rightParen = false)
      (all : SeparatedReads item source before (a, items) after) :
      ListedReads item source before (a :: items) after

/-- Items separated by commas, perhaps with an ellipsis as the last. -/
inductive EllipsisReads (item : Meaning α) (source : List Char) :
    Stage → List α × Bool → Stage → Prop where
  /-- The ellipsis. -/
  | ellipsis {stage : Stage} (here : stage.cursor.atPunct .ellipsis = true) :
      EllipsisReads item source stage ([], true) stage.next
  /-- The last item. -/
  | last {before after : Stage} {a : α} (absent : before.cursor.atPunct .ellipsis = false)
      (only : item source before a after) (ends : after.cursor.atPunct .comma = false) :
      EllipsisReads item source before ([a], false) after
  /-- An item and a comma. -/
  | more {before middle after : Stage} {a : α} {items : List α} {ellipsis : Bool}
      (absent : before.cursor.atPunct .ellipsis = false) (first : item source before a middle)
      (comma : middle.cursor.atPunct .comma = true)
      (rest : EllipsisReads item source middle.next (items, ellipsis) after) :
      EllipsisReads item source before (a :: items, ellipsis) after

/-- Items before a closing parenthesis, perhaps with an ellipsis as the last. -/
def ListedWithEllipsisReads (item : Meaning α) : Meaning (List α × Bool) :=
  fun source before found after =>
    if before.cursor.atPunct .rightParen then found = ([], false) ∧ after = before
    else EllipsisReads item source before found after

/-- Items up to a closing bracket. -/
inductive BracketedReads (separator : Separator) (item : Meaning α) (source : List Char) :
    Stage → List α → Stage → Prop where
  /-- The closing bracket. -/
  | nil {stage : Stage} (ends : stage.cursor.atPunct .rightBracket = true) :
      BracketedReads separator item source stage [] stage.next
  /-- An item and what separates it from the next one. -/
  | cons {before middle after : Stage} {a : α} {items : List α}
      (inside : before.cursor.atPunct .rightBracket = false) (more : before.cursor.atEnd = false)
      (first : item source before a middle)
      (rest : BracketedReads separator item source (middle.pastSeparator separator) items after) :
      BracketedReads separator item source before (a :: items) after

/-- Items as long as a condition is satisfied. -/
inductive RepeatedReads (next : Guard) (item : Meaning α) (source : List Char) :
    Stage → List α → Stage → Prop where
  /-- The condition is not satisfied. -/
  | nil {stage : Stage} (ends : next.holds stage.cursor = false) :
      RepeatedReads next item source stage [] stage
  /-- Another item and an optional comma. -/
  | cons {before middle after : Stage} {a : α} {items : List α}
      (goesOn : next.holds before.cursor = true) (first : item source before a middle)
      (rest : RepeatedReads next item source middle.pastComma items after) :
      RepeatedReads next item source before (a :: items) after

section Forall

variable {item : Meaning α} {P : α → Prop} {before after : Stage}
  (each : ∀ {before after : Stage} {a : α}, item source before a after → P a)

include each

theorem tailReads_forall {items : List α} (reads : TailReads item source before items after) :
    ∀ a ∈ items, P a := by
  induction reads with
  | nil => simp
  | cons _ first _ ih => exact List.forall_mem_cons.2 ⟨each first, ih⟩

theorem separatedReads_forall {found : α × List α}
    (reads : SeparatedReads item source before found after) : ∀ a ∈ found.1 :: found.2, P a := by
  obtain ⟨middle, first, rest⟩ := reads
  exact List.forall_mem_cons.2 ⟨each first, tailReads_forall each rest⟩

theorem listedReads_forall {items : List α} (reads : ListedReads item source before items after) :
    ∀ a ∈ items, P a := by
  cases reads with
  | nil => simp
  | cons _ all => exact separatedReads_forall each all

theorem listedWithEllipsisReads_forall {found : List α × Bool}
    (reads : ListedWithEllipsisReads item source before found after) : ∀ a ∈ found.1, P a := by
  have through : ∀ {before found after}, EllipsisReads item source before found after →
      ∀ a ∈ found.1, P a := by
    intro before found after reads
    induction reads with
    | ellipsis => simp
    | last _ only => exact List.forall_mem_singleton.2 (each only)
    | more _ first _ _ ih => exact List.forall_mem_cons.2 ⟨each first, ih⟩
  unfold ListedWithEllipsisReads at reads
  split at reads
  · rw [reads.1]
    simp
  · exact through reads

theorem bracketedReads_forall {separator : Separator} {items : List α}
    (reads : BracketedReads separator item source before items after) : ∀ a ∈ items, P a := by
  induction reads with
  | nil => simp
  | cons _ _ first _ ih => exact List.forall_mem_cons.2 ⟨each first, ih⟩

theorem repeatedReads_forall {next : Guard} {items : List α}
    (reads : RepeatedReads next item source before items after) : ∀ a ∈ items, P a := by
  induction reads with
  | nil => simp
  | cons _ first _ ih => exact List.forall_mem_cons.2 ⟨each first, ih⟩

end Forall

/-- Whether what is read cannot be empty. -/
def Meaning.Progresses (meaning : Meaning α) : Prop :=
  ∀ source before a after, meaning source before a after → after.rest.length < before.rest.length

theorem Stage.atEnd_eq (stage : Stage) : stage.cursor.atEnd = stage.rest.isEmpty :=
  rfl

theorem Stage.length_next_lt {stage : Stage} {mark : Punct}
    (here : stage.cursor.atPunct mark = true) : stage.next.rest.length < stage.rest.length := by
  have passes := ((Stage.passes_iff (·.isPunct mark) fun _ => rfl).1 ⟨here, rfl, rfl⟩).2
  rw [passes.1]
  exact Nat.lt_succ_self _

theorem Stage.length_lt_of_atWord {stage : Stage} {word : String}
    (here : stage.cursor.atWord word = true) : stage.next.rest.length < stage.rest.length := by
  have passes := ((Stage.passes_iff (·.isWord word) fun _ => rfl).1 ⟨here, rfl, rfl⟩).2
  rw [passes.1]
  exact Nat.lt_succ_self _

theorem Stage.leads_pastComma (stage : Stage) : stage.Leads stage.pastComma := by
  unfold pastComma
  split
  · exact stage.leads_next
  · exact .refl stage

theorem Stage.leads_pastSeparator (stage : Stage) (separator : Separator) :
    stage.Leads (stage.pastSeparator separator) := by
  cases separator with
  | comma => exact stage.leads_pastComma
  | blank => exact .refl stage

theorem BracketedReads.leads {separator : Separator} {item : Meaning α} {source : List Char}
    {before after : Stage} {items : List α}
    (reads : BracketedReads separator item source before items after)
    (leads : ∀ source before a after, item source before a after → before.Leads after) :
    before.Leads after := by
  induction reads with
  | nil ends => exact Stage.leads_next _
  | @cons before middle after a items _ _ first rest ih =>
    exact ((leads _ _ _ _ first).trans (middle.leads_pastSeparator separator)).trans ih

section Steps

/-! ### The steps of the loops that read lists -/

variable {item : Meaning α} {source : List Char} {before after : Stage}

/-- One step of the items that come after commas. -/
def TailStepReads (item : Meaning α) : Meaning (Option α × Bool) :=
  fun source before outcome after =>
    if before.cursor.atPunct .comma then
      ∃ a, item source before.next a after ∧ outcome = (some a, true)
    else outcome = (none, false) ∧ after = before

theorem collects_tailStepReads {items : List α} :
    Means.Collects (TailStepReads item) source before items after ↔
      TailReads item source before items after := by
  constructor
  · intro runs
    induction runs with
    | done last =>
      unfold TailStepReads at last
      split at last
      · obtain ⟨_, _, ⟨⟩⟩ := last
      · rename_i absent
        obtain ⟨⟨⟩, rfl⟩ := last
        exact .nil (Bool.eq_false_iff.2 absent)
    | again first rest ih =>
      unfold TailStepReads at first
      split at first
      · rename_i here
        obtain ⟨a, related, ⟨⟩⟩ := first
        exact .cons here related ih
      · cases first.1
  · intro reads
    induction reads with
    | @nil stage ends =>
      have last : TailStepReads item source stage (none, false) stage := by
        simp only [TailStepReads, ends, Bool.false_eq_true, if_false, and_self]
      exact .done last
    | @cons before middle after a items comma first rest ih =>
      have first : TailStepReads item source before (some a, true) middle := by
        simp only [TailStepReads, comma, if_true]
        exact ⟨a, first, rfl⟩
      exact .again first ih

/-- One step of the items of which the last may be an ellipsis, after the given ones, the latest
first. -/
def EllipsisStepReads (item : Meaning α) (earlier : List α) :
    Meaning (Step (List α) (List α × Bool)) := fun source before outcome after =>
  if before.cursor.atPunct .ellipsis then
    outcome = .done (earlier.reverse, true) ∧ after = before.next
  else ∃ a middle, item source before a middle ∧
    if middle.cursor.atPunct .comma then outcome = .again (a :: earlier) ∧ after = middle.next
    else outcome = .done ((a :: earlier).reverse, false) ∧ after = middle

theorem EllipsisReads.of_loop {earlier : List α} {found : List α × Bool}
    (runs : Means.Loop (EllipsisStepReads item) source earlier before found after) :
    ∃ items ellipsis, EllipsisReads item source before (items, ellipsis) after ∧
      found = (earlier.reverse ++ items, ellipsis) := by
  induction runs with
  | done last =>
    unfold EllipsisStepReads at last
    split at last
    · rename_i here
      obtain ⟨⟨⟩, rfl⟩ := last
      exact ⟨[], true, .ellipsis here, by rw [List.append_nil]⟩
    · rename_i absent
      obtain ⟨a, middle, only, last⟩ := last
      split at last
      · cases last.1
      · rename_i ends
        obtain ⟨⟨⟩, rfl⟩ := last
        refine ⟨[a], false, .last (Bool.eq_false_iff.2 absent) only (Bool.eq_false_iff.2 ends), ?_⟩
        rw [List.reverse_cons]
  | again first rest ih =>
    unfold EllipsisStepReads at first
    split at first
    · cases first.1
    · rename_i absent
      obtain ⟨a, middle, first, goesOn⟩ := first
      split at goesOn
      · rename_i comma
        obtain ⟨⟨⟩, rfl⟩ := goesOn
        obtain ⟨items, ellipsis, reads, rfl⟩ := ih
        refine ⟨a :: items, ellipsis, .more (Bool.eq_false_iff.2 absent) first comma reads, ?_⟩
        rw [List.reverse_cons, List.append_assoc, List.singleton_append]
      · cases goesOn.1

theorem EllipsisReads.loop {found : List α × Bool}
    (reads : EllipsisReads item source before found after) (earlier : List α) :
    Means.Loop (EllipsisStepReads item) source earlier before
      (earlier.reverse ++ found.1, found.2) after := by
  induction reads generalizing earlier with
  | @ellipsis stage here =>
    apply Means.Loop.done
    simp [EllipsisStepReads, here]
  | @last before after a absent only ends =>
    apply Means.Loop.done
    simp only [EllipsisStepReads, absent, Bool.false_eq_true, if_false]
    exact ⟨a, after, only, by simp [ends]⟩
  | @more before middle after a items ellipsis absent first comma rest ih =>
    have continues := ih (a :: earlier)
    rw [List.reverse_cons, List.append_assoc] at continues
    refine .again ?_ continues
    simp only [EllipsisStepReads, absent, Bool.false_eq_true, if_false]
    exact ⟨a, middle, first, by simp [comma]⟩

/-- One step of the items up to a closing bracket. -/
def BracketedStepReads (separator : Separator) (item : Meaning α) : Meaning (Option α × Bool) :=
  fun source before outcome after =>
    if before.cursor.atPunct .rightBracket then outcome = (none, false) ∧ after = before.next
    else before.cursor.atEnd = false ∧ ∃ a middle, item source before a middle ∧
      outcome = (some a, true) ∧ after = middle.pastSeparator separator

theorem collects_bracketedStepReads {separator : Separator} {items : List α} :
    Means.Collects (BracketedStepReads separator item) source before items after ↔
      BracketedReads separator item source before items after := by
  constructor
  · intro runs
    induction runs with
    | done last =>
      unfold BracketedStepReads at last
      split at last
      · rename_i here
        obtain ⟨⟨⟩, rfl⟩ := last
        exact .nil here
      · obtain ⟨_, _, _, _, ⟨⟩, _⟩ := last
    | again first rest ih =>
      unfold BracketedStepReads at first
      split at first
      · cases first.1
      · rename_i inside
        obtain ⟨more, a, middle, first, ⟨⟩, rfl⟩ := first
        exact .cons (Bool.eq_false_iff.2 inside) more first ih
  · intro reads
    induction reads with
    | @nil stage ends =>
      have last : BracketedStepReads separator item source stage (none, false) stage.next := by
        simp [BracketedStepReads, ends]
      exact .done last
    | @cons before middle after a items inside more first rest ih =>
      have first : BracketedStepReads separator item source before (some a, true)
          (middle.pastSeparator separator) := by
        simp only [BracketedStepReads, inside, Bool.false_eq_true, if_false]
        exact ⟨more, a, middle, first, rfl, rfl⟩
      exact .again first ih

/-- One step of the items that are read as long as a condition is satisfied. -/
def RepeatedStepReads (next : Guard) (item : Meaning α) : Meaning (Option α × Bool) :=
  fun source before outcome after =>
    if next.holds before.cursor then ∃ a middle, item source before a middle ∧
      outcome = (some a, true) ∧ after = middle.pastComma
    else outcome = (none, false) ∧ after = before

theorem collects_repeatedStepReads {next : Guard} {items : List α} :
    Means.Collects (RepeatedStepReads next item) source before items after ↔
      RepeatedReads next item source before items after := by
  constructor
  · intro runs
    induction runs with
    | done last =>
      unfold RepeatedStepReads at last
      split at last
      · obtain ⟨_, _, _, ⟨⟩, _⟩ := last
      · rename_i ends
        obtain ⟨⟨⟩, rfl⟩ := last
        exact .nil (Bool.eq_false_iff.2 ends)
    | again first rest ih =>
      unfold RepeatedStepReads at first
      split at first
      · rename_i goesOn
        obtain ⟨a, middle, first, ⟨⟩, rfl⟩ := first
        exact .cons goesOn first ih
      · cases first.1
  · intro reads
    induction reads with
    | @nil stage ends =>
      have last : RepeatedStepReads next item source stage (none, false) stage := by
        simp [RepeatedStepReads, ends]
      exact .done last
    | @cons before middle after a items goesOn first rest ih =>
      have first : RepeatedStepReads next item source before (some a, true) middle.pastComma := by
        simp only [RepeatedStepReads, goesOn, if_true]
        exact ⟨a, middle, first, rfl, rfl⟩
      exact .again first ih

end Steps

namespace Means

variable {item : Parser α} {meaning : Meaning α}

/-- An optional comma whose presence does not matter. -/
theorem comma {β : Type} {next : Parser β} {then_ : Meaning β} (h : Means next then_) :
    Means (Parser.eat .comma >>= fun _ => next) fun source before b after =>
      then_ source before.pastComma b after := by
  refine (eat fun _ => h).congr fun source before b after => ?_
  unfold Stage.pastComma
  split <;> exact .rfl

theorem tail (h : Means item meaning) :
    Means (Parser.collect do
      if ← Parser.eat .comma then
        Pure.pure (some (← item), true)
      else
        Pure.pure (none, false)) (TailReads meaning) := by
  have steps : Means (do
      if ← Parser.eat .comma then
        Pure.pure (some (← item), true)
      else
        Pure.pure (none, false)) (TailStepReads meaning) := by
    refine (eat fun eaten => ite (fun _ => h.bind fun a => pure (some a, true))
      fun _ => pure (none, false)).congr fun source before outcome after => ?_
    unfold TailStepReads
    split
    · constructor
      · rintro ⟨a, middle, related, rfl, rfl⟩
        exact ⟨a, related, rfl⟩
      · rintro ⟨a, related, rfl⟩
        exact ⟨a, after, related, rfl, rfl⟩
    · exact .rfl
  refine (collect steps fun related => ?_).congr fun source before items after =>
    collects_tailStepReads
  unfold TailStepReads at related
  split at related
  · rename_i here
    obtain ⟨a, related, _⟩ := related
    exact Nat.lt_of_le_of_lt (h.leads _ _ _ _ related).length_le (Stage.length_next_lt here)
  · cases related.1

theorem separated (h : Means item meaning) :
    Means (Parser.separated item) (SeparatedReads meaning) := by
  refine (h.bind fun head => (tail h).bind fun items => pure (head, items)).congr
    fun source before found after => ?_
  constructor
  · rintro ⟨head, middle, first, items, _, rest, rfl, rfl⟩
    exact ⟨middle, first, rest⟩
  · rintro ⟨middle, first, rest⟩
    exact ⟨found.1, middle, first, found.2, after, rest, rfl, rfl⟩

theorem listed (h : Means item meaning) :
    Means (Parser.listed item) (ListedReads meaning) := by
  refine (cursor fun here => ite (fun _ => pure []) fun _ =>
    (separated h).bind fun found => pure (found.1 :: found.2)).congr
      fun source before items after => ?_
  constructor
  · intro related
    split at related
    · rename_i ends
      obtain ⟨rfl, rfl⟩ := related
      exact .nil ends
    · rename_i inside
      obtain ⟨⟨head, rest⟩, middle, all, rfl, rfl⟩ := related
      exact .cons (Bool.eq_false_iff.2 inside) all
  · rintro (ends | ⟨inside, all⟩)
    · rw [if_pos ends]
      exact ⟨rfl, rfl⟩
    · rw [if_neg (Bool.eq_false_iff.1 inside)]
      exact ⟨(_, _), after, all, rfl, rfl⟩

theorem listedWithEllipsis (h : Means item meaning) :
    Means (Parser.listedWithEllipsis item) (ListedWithEllipsisReads meaning) := by
  have steps : ∀ items, Means (do
      if ← Parser.eat .ellipsis then
        Pure.pure (.done (items.reverse, true))
      else
        let items := (← item) :: items
        if ← Parser.eat .comma then
          Pure.pure (.again items)
        else
          Pure.pure (.done (items.reverse, false))) (EllipsisStepReads meaning items) := by
    intro items
    refine (eat fun ellipsis => ite (fun _ => pure _) fun _ => h.bind fun a => eat fun comma =>
      ite (fun _ => pure _) fun _ => pure _).congr fun source before outcome after => ?_
    unfold EllipsisStepReads
    split
    · exact .rfl
    · exact .rfl
  have progress : ∀ {items source before next after},
      EllipsisStepReads meaning items source before (.again next) after →
        after.rest.length < before.rest.length := by
    intro items source before next after related
    unfold EllipsisStepReads at related
    split at related
    · cases related.1
    · obtain ⟨a, middle, first, related⟩ := related
      split at related
      · rename_i comma
        rw [related.2]
        exact Nat.lt_of_lt_of_le (Stage.length_next_lt comma) (h.leads _ _ _ _ first).length_le
      · cases related.1
  refine (cursor fun here => ite (fun _ => pure ([], false)) fun _ =>
    iterate steps progress []).congr fun source before found after => ?_
  unfold ListedWithEllipsisReads
  split
  · exact .rfl
  · constructor
    · intro runs
      obtain ⟨items, ellipsis, reads, rfl⟩ := EllipsisReads.of_loop runs
      exact reads
    · intro reads
      exact reads.loop []

theorem bracketed (separator : Separator) (h : Means item meaning)
    (progresses : meaning.Progresses) :
    Means (Parser.bracketed separator item) fun source before items after =>
      ∃ opening middle, (opening.isPunct .leftBracket = true ∧ before.Passes opening middle) ∧
        BracketedReads separator meaning source middle items after := by
  have steps : Means (do
      if ← Parser.eat .rightBracket then
        Pure.pure (none, false)
      else if (← Parser.cursor).atEnd then
        Parser.expected "`]`"
      else
        let found ← item
        if separator = .comma then
          let _ ← Parser.eat .comma
        Pure.pure (some found, true)) (BracketedStepReads separator meaning) := by
    refine (eat fun closed => ite (fun _ => pure (none, false)) fun _ => cursor fun here =>
      ite (fun _ => expected _) fun _ => h.bind fun a =>
        ite (fun _ => comma (pure (some a, true))) fun _ => pure (some a, true)).congr
          fun source before outcome after => ?_
    unfold BracketedStepReads
    split
    · exact .rfl
    · simp only [Bool.false_eq_true, if_false]
      split
      · rename_i ends
        simp [ends]
      · rename_i more
        cases separator with
        | comma => simp [Bool.eq_false_iff.2 more, Stage.pastSeparator]
        | blank => simp [Bool.eq_false_iff.2 more, Stage.pastSeparator]
  have progress : ∀ {source before found after},
      BracketedStepReads separator meaning source before (found, true) after →
        after.rest.length < before.rest.length := by
    intro source before found after related
    unfold BracketedStepReads at related
    split at related
    · cases related.1
    · obtain ⟨_, a, middle, first, _, rfl⟩ := related
      exact Nat.lt_of_le_of_lt (middle.leads_pastSeparator separator).length_le
        (progresses _ _ _ _ first)
  exact ((punct .leftBracket).bind fun _ => collect steps progress).congr
    fun source before items after => exists_congr fun opening => exists_congr fun middle =>
      and_congr .rfl collects_bracketedStepReads

theorem repeated (next : Guard) (h : Means item meaning) (progresses : meaning.Progresses) :
    Means (Parser.repeated next item) (RepeatedReads next meaning) := by
  have steps : Means (do
      if next.holds (← Parser.cursor) then
        let found ← item
        let _ ← Parser.eat .comma
        Pure.pure (some found, true)
      else
        Pure.pure (none, false)) (RepeatedStepReads next meaning) := by
    refine (cursor fun here => ite (fun _ => h.bind fun a => comma (pure (some a, true))) fun _ =>
      pure (none, false)).congr fun source before outcome after => ?_
    unfold RepeatedStepReads
    split <;> exact .rfl
  have progress : ∀ {source before found after},
      RepeatedStepReads next meaning source before (found, true) after →
        after.rest.length < before.rest.length := by
    intro source before found after related
    unfold RepeatedStepReads at related
    split at related
    · obtain ⟨a, middle, first, _, rfl⟩ := related
      exact Nat.lt_of_le_of_lt middle.leads_pastComma.length_le (progresses _ _ _ _ first)
    · cases related.1
  exact (collect steps progress).congr fun source before items after => collects_repeatedStepReads

end Means

/-! ## Modifiers -/

/-- The argument of a modifier without its brackets. -/
def ArgumentReads : ArgumentKind → Meaning Argument
  | .word => fun _ before argument after => ∃ found, (found.kind = .identifier ∧
      before.Passes found after) ∧ argument = .lexeme ⟨found.text, found.span⟩
  | .integer => fun _ before argument after => ∃ found, (found.kind = .integer ∧
      before.Passes found after) ∧ argument = .lexeme ⟨found.text, found.span⟩
  | .symbol => fun _ before argument after => ∃ used, before.Refers .symbol used after ∧
      argument = .symbol used
  | .attribute => fun source before argument after => ∃ value,
      NamedAttributeReads source before value after ∧ argument = .attribute value

/-- The argument of a modifier with its brackets, if it takes one. -/
def ModifierArgumentReads (form : Option ArgumentSyntax) : Meaning (Option Argument) :=
  fun source before found after =>
    match form with
    | none => found = none ∧ after = before
    | some form =>
      if form.optional && !before.cursor.atPunct form.opening then found = none ∧ after = before
      else ∃ opening first,
        (opening.isPunct form.opening = true ∧ before.Passes opening first) ∧ ∃ argument last,
          ArgumentReads form.kind source first argument last ∧ ∃ closing,
            (closing.isPunct form.closing = true ∧ last.Passes closing after) ∧
              found = some argument

/-- A run of modifiers after the given ones, no two of which fill the same slot. -/
inductive ModifiersRead (rules : List ModifierRule) (source : List Char) :
    List Modifier → Stage → List Modifier → Stage → Prop where
  /-- No further keyword. -/
  | nil {modifiers : List Modifier} {stage : Stage}
      (ends : rules.find? (fun rule => stage.cursor.atWord rule.keyword) = none) :
      ModifiersRead rules source modifiers stage modifiers stage
  /-- Another modifier. -/
  | cons {earlier modifiers : List Modifier} {before middle after : Stage} {rule : ModifierRule}
      {argument : Option Argument}
      (keyword : rules.find? (fun rule => before.cursor.atWord rule.keyword) = some rule)
      (first : ModifierArgumentReads rule.argument source before.next argument middle)
      (free : ModifierTable.filling? earlier rule.slot = none)
      (rest : ModifiersRead rules source (earlier ++ [⟨rule, argument⟩]) middle modifiers after) :
      ModifiersRead rules source earlier before modifiers after

namespace Means

theorem argumentReads (kind : ArgumentKind) :
    Means (Parser.argumentOf kind) (ArgumentReads kind) := by
  have lexeme : ∀ {kind : TokenKind} {what : String}, kind ≠ .endOfInput → Means (do
      let found ← Parser.token kind what
      Pure.pure (Argument.lexeme ⟨found.text, found.span⟩)) fun _ before argument after =>
        ∃ found, (found.kind = kind ∧ before.Passes found after) ∧
          argument = .lexeme ⟨found.text, found.span⟩ := by
    intro kind what real
    refine ((token what real).bind fun found => pure _).congr fun source before argument after => ?_
    constructor
    · rintro ⟨found, _, passes, rfl, rfl⟩
      exact ⟨found, passes, rfl⟩
    · rintro ⟨found, passes, rfl⟩
      exact ⟨found, after, passes, rfl, rfl⟩
  cases kind with
  | word => exact lexeme (by rintro ⟨⟩)
  | integer => exact lexeme (by rintro ⟨⟩)
  | symbol => exact (refer .symbol).map
  | «attribute» => exact namedAttributeReads.map

theorem modifierArgumentReads (form : Option ArgumentSyntax) :
    Means (Parser.modifierArgument form) (ModifierArgumentReads form) := by
  cases form with
  | none => exact pure none
  | some form =>
    refine (cursor fun here => ite (fun _ => pure none) fun _ =>
      (punct form.opening).bind fun _ => (argumentReads form.kind).bind fun argument =>
        (punct form.closing).bind fun _ => pure (some argument)).congr
          fun source before found after => ?_
    simp only [ModifierArgumentReads]
    split
    · exact .rfl
    · refine exists_congr fun opening => exists_congr fun first => and_congr .rfl <|
        exists_congr fun argument => exists_congr fun last => and_congr .rfl <|
          exists_congr fun closing => ?_
      constructor
      · rintro ⟨_, passes, rfl, rfl⟩
        exact ⟨passes, rfl⟩
      · rintro ⟨passes, rfl⟩
        exact ⟨after, passes, rfl, rfl⟩

theorem reportRepeated (rule earlier : ModifierRule) (span : Span) :
    Means (Parser.reportRepeated rule earlier span) fun _ _ _ _ => False :=
  wrong fun _ _ => not_clean_error rfl

/-- What is done with a modifier that has been read. -/
def fitModifier (modifiers : List Modifier) (rule : ModifierRule) (argument : Option Argument)
    (start : Cursor) : Parser (Step (List Modifier) (List Modifier)) :=
  match ModifierTable.filling? modifiers rule.slot with
  | some earlier => do
    Parser.reportRepeated rule earlier.rule (start.spanBetween (← Parser.cursor))
    Pure.pure (.again modifiers)
  | none => Pure.pure (.again (modifiers ++ [⟨rule, argument⟩]))

/-- A modifier whose slot is free. -/
theorem modifierFits (modifiers : List Modifier) (rule : ModifierRule) (argument : Option Argument)
    (start : Cursor) :
    Means (fitModifier modifiers rule argument start)
      fun _ before outcome after => ModifierTable.filling? modifiers rule.slot = none ∧
        outcome = .again (modifiers ++ [⟨rule, argument⟩]) ∧ after = before := by
  unfold fitModifier
  cases ModifierTable.filling? modifiers rule.slot with
  | none =>
    refine (pure _).congr fun source before outcome after => ?_
    exact ⟨fun related => ⟨rfl, related⟩, fun related => related.2⟩
  | some earlier =>
    refine (cursor fun now => (reportRepeated rule earlier.rule (start.spanBetween now)).bind
      fun _ => pure _).congr fun source before outcome after => ?_
    constructor
    · rintro ⟨_, _, ⟨⟩, _⟩
    · rintro ⟨⟨⟩, _⟩

/-- What one step through a run of modifiers reads. -/
def ModifierStepReads (rules : List ModifierRule) (modifiers : List Modifier) (start : Cursor) :
    Meaning (Step (List Modifier) (List Modifier)) :=
  fun source before outcome after =>
    match rules.find? fun rule => start.atWord rule.keyword with
    | none => outcome = .done modifiers ∧ after = before
    | some rule => ∃ argument,
        ModifierArgumentReads rule.argument source before.next argument after ∧
          ModifierTable.filling? modifiers rule.slot = none ∧
            outcome = .again (modifiers ++ [⟨rule, argument⟩])

theorem loop_modifierStepReads {rules : List ModifierRule} {modifiers found : List Modifier}
    {source : List Char} {before after : Stage} :
    Loop (fun modifiers source before =>
      ModifierStepReads rules modifiers before.cursor source before) source modifiers before found
        after ↔ ModifiersRead rules source modifiers before found after := by
  constructor
  · intro runs
    induction runs with
    | done last =>
      simp only [ModifierStepReads] at last
      split at last
      · rename_i ends
        obtain ⟨⟨⟩, rfl⟩ := last
        exact .nil ends
      · obtain ⟨_, _, _, ⟨⟩⟩ := last
    | again first rest ih =>
      simp only [ModifierStepReads] at first
      split at first
      · cases first.1
      · rename_i rule keyword
        obtain ⟨argument, first, free, ⟨⟩⟩ := first
        exact .cons keyword first free ih
  · intro reads
    induction reads with
    | @nil modifiers stage ends =>
      apply Loop.done
      simp only [ModifierStepReads, ends, and_self]
    | @cons earlier modifiers before middle after rule argument keyword first free rest ih =>
      refine .again ?_ ih
      simp only [ModifierStepReads, keyword]
      exact ⟨argument, first, free, rfl⟩

theorem modifierRun (rules : List ModifierRule) :
    Means (Parser.modifierRun rules) fun source => ModifiersRead rules source [] := by
  refine (iterate (fun modifiers => cursor fun start => ?_) ?_ []).congr
    fun source before found after => loop_modifierStepReads
  · unfold ModifierStepReads
    cases rules.find? fun rule => start.atWord rule.keyword with
    | none => exact pure _
    | some rule =>
      refine (skip.bind fun _ => (modifierArgumentReads rule.argument).bind fun argument =>
        modifierFits modifiers rule argument start).congr fun source before outcome after => ?_
      constructor
      · rintro ⟨_, _, rfl, argument, middle, first, free, rfl, rfl⟩
        exact ⟨argument, first, free, rfl⟩
      · rintro ⟨argument, first, free, rfl⟩
        exact ⟨(), _, rfl, argument, after, first, free, rfl, rfl⟩
  · intro modifiers source before next after related
    simp only [ModifierStepReads] at related
    split at related
    · cases related.1
    · rename_i rule keyword
      obtain ⟨argument, first, _, _⟩ := related
      have here := List.find?_some keyword
      have shorter := Nat.lt_of_le_of_lt
        ((modifierArgumentReads rule.argument).leads _ _ _ _ first).length_le
        (Stage.length_lt_of_atWord here)
      exact shorter

end Means

end Parser

open CirText.Parser

namespace Grammar

variable {R : Type}

/-! ## Grammars -/

/-- What a grammar reads, given what is read for regions. -/
def Reads (region : RegionKind → Bool → Meaning R) : {α : Type} → Grammar R α → Meaning α
  | _, .blank => fun _ before _ after => after = before
  | _, .punct mark => fun _ before _ after => ∃ found,
      found.isPunct mark = true ∧ before.Passes found after
  | _, .word text => fun _ before _ after => ∃ found,
      found.isWord text = true ∧ before.Passes found after
  | _, .lexeme kind _ => fun _ before a after => ∃ found,
      (found.kind = kind ∧ before.Passes found after) ∧ a = ⟨found.text, found.span⟩
  | _, .oneOf words _ => fun _ before a after => ∃ found,
      (words.any found.isWord = true ∧ before.Passes found after) ∧ a = ⟨found.text, found.span⟩
  | _, .name kind => fun _ before used after => before.Refers kind used after
  | _, .definition kind => fun _ before defined after => ∃ found middle,
      (found.kind = nameToken kind ∧ before.Passes found middle) ∧
        middle.Defines kind found defined after
  | _, .type => TypeReads
  | _, .attributeOf form => AttributeReads form
  | _, .namedAttribute => NamedAttributeReads
  | _, .trailingAttribute => TrailingAttributeReads
  | _, .seq first second => fun source before both after => ∃ middle,
      first.Reads region source before both.1 middle ∧
        second.Reads region source middle both.2 after
  | _, .view as inner => fun source before b after => ∃ a,
      inner.Reads region source before a after ∧ b = as.build a
  | _, .optional present inner => fun source before found after =>
      if present.holds before.cursor then
        ∃ a, inner.Reads region source before a after ∧ found = some a
      else found = none ∧ after = before
  | _, .choice isFirst first second => fun source before either after =>
      if isFirst.holds before.cursor then
        ∃ a, first.Reads region source before a after ∧ either = .inl a
      else ∃ b, second.Reads region source before b after ∧ either = .inr b
  | _, .separated item => SeparatedReads (item.Reads region)
  | _, .listed item => ListedReads (item.Reads region)
  | _, .listedWithEllipsis item => ListedWithEllipsisReads (item.Reads region)
  | _, .bracketed separator item => fun source before items after => ∃ opening middle,
      (opening.isPunct .leftBracket = true ∧ before.Passes opening middle) ∧
        BracketedReads separator (item.Reads region) source middle items after
  | _, .repeated next item => RepeatedReads next (item.Reads region)
  | _, .modifierRun table => fun source before a after => ∃ modifiers,
      ModifiersRead table.rules source [] before modifiers after ∧ a = table.collect modifiers
  | _, .spanned inner => fun source before found after =>
      inner.Reads region source before found.1 after ∧
        found.2 = before.cursor.spanBetween after.cursor
  | _, .binder _ inner => fun source before bound after => ∃ found middle last,
      (found.kind = .value ∧ before.Passes found middle) ∧
        inner.Reads region source middle bound.2 last ∧ last.Defines .value found bound.1 after
  | _, .inScope inner => fun source before a after => ∃ inside : Stage,
      inner.Reads region source { before with tracker := before.tracker.push } a inside ∧
        inside.tracker.pop.2 = [] ∧ after = { inside with tracker := inside.tracker.pop.1 }
  | _, .region kind implicitTerminator => region kind implicitTerminator
  | _, .recommended _ _ inner => inner.Reads region

/-- Whether what a grammar describes is never empty. -/
def consumes : {α : Type} → Grammar R α → Bool
  | _, .blank | _, .trailingAttribute | _, .optional _ _ | _, .listed _
  | _, .listedWithEllipsis _ | _, .repeated _ _ | _, .modifierRun _ | _, .region _ _ => false
  | _, .punct _ | _, .word _ | _, .lexeme _ _ | _, .oneOf _ _ | _, .name _ | _, .definition _
  | _, .type | _, .attributeOf _ | _, .namedAttribute | _, .bracketed _ _ | _, .binder _ _ => true
  | _, .seq first second => first.consumes || second.consumes
  | _, .choice _ first second => first.consumes && second.consumes
  | _, .view _ inner | _, .separated inner | _, .spanned inner | _, .inScope inner
  | _, .recommended _ _ inner => inner.consumes

/-- Whether reading by a grammar always makes headway: the items of its lists are never empty, and
it never asks for the end of input. -/
def steady : {α : Type} → Grammar R α → Bool
  | _, .lexeme kind _ => kind != .endOfInput
  | _, .seq first second | _, .choice _ first second => first.steady && second.steady
  | _, .bracketed _ item | _, .repeated _ item => item.consumes && item.steady
  | _, .view _ inner | _, .optional _ inner | _, .separated inner | _, .listed inner
  | _, .listedWithEllipsis inner | _, .spanned inner | _, .binder _ inner | _, .inScope inner
  | _, .recommended _ _ inner => inner.steady
  | _, _ => true

theorem body_steady (opcode : Opcode) (form : Form) :
    (body (R := R) opcode form).steady = true := by
  unfold body
  split <;> rfl

theorem blockHeader_steady : (blockHeader (R := R)).steady = true :=
  rfl

theorem progresses_embeds {source : List Char}
    {read : (tokens : List Token) → Reader.Reading tokens} {before after : Stage} {text : String}
    {span : Span} (embeds : before.Embeds source read text span after) :
    after.rest.length < before.rest.length := by
  obtain ⟨rest, _, rfl, _⟩ := embeds
  change (before.cursor.advance _).rest.length < _
  rw [Cursor.rest_advance, List.length_drop]
  have fewer := rest.2
  change rest.1.length < before.cursor.rest.length at fewer
  change _ < before.cursor.rest.length
  omega

theorem progresses_passes {before after : Stage} {found : Token}
    (passes : before.Passes found after) : after.rest.length < before.rest.length := by
  rw [passes.1]
  exact Nat.lt_succ_self _

theorem progresses_of_leads {before middle after : Stage} {found : Token}
    (passes : before.Passes found middle) (leads : middle.Leads after) :
    after.rest.length < before.rest.length :=
  Nat.lt_of_le_of_lt leads.length_le (progresses_passes passes)

section Means

variable {start : Cursor} {region : RegionKind → Bool → Parser R}
    {meaning : RegionKind → Bool → Meaning R}
  {α β : Type} {first inner item : Grammar R α} {second : Grammar R β}

/-- Whether what a grammar reads is the meaning of its parser, and reading it makes headway if it is
never empty. -/
structure Faithful (start : Cursor) (region : RegionKind → Bool → Parser R)
    (meaning : RegionKind → Bool → Meaning R) (grammar : Grammar R α) : Prop where
  means : Means (grammar.parse start region) (grammar.Reads meaning)
  progresses : grammar.consumes = true → (grammar.Reads meaning).Progresses

/-! ### Tokens and names -/

/-- A token that is accepted for what it is, and something that is made of it. -/
theorem means_made {parser : Parser Token} {accepts : Token → Prop}
    (means : Means parser fun _ before found after => accepts found ∧ before.Passes found after)
    (make : Token → α) :
    Means (parser >>= fun found => Pure.pure (make found)) fun _ before a after =>
      ∃ found, (accepts found ∧ before.Passes found after) ∧ a = make found := by
  refine (means.bind fun found => .pure (make found)).congr fun source before a after => ?_
  constructor
  · rintro ⟨found, _, passes, rfl, rfl⟩
    exact ⟨found, passes, rfl⟩
  · rintro ⟨found, passes, rfl⟩
    exact ⟨found, after, passes, rfl, rfl⟩

theorem faithful_blank : Faithful start region meaning blank where
  means := (Means.pure ()).congr fun _ _ _ _ =>
    ⟨fun related => related.2, fun related => ⟨rfl, related⟩⟩
  progresses := by rintro ⟨⟩

theorem faithful_punct (mark : Punct) : Faithful start region meaning (punct mark) where
  means := by
    refine (means_made (Means.punct mark) fun _ => ()).congr fun source before a after => ?_
    constructor
    · rintro ⟨found, passes, _⟩
      exact ⟨found, passes⟩
    · rintro ⟨found, passes⟩
      exact ⟨found, passes, rfl⟩
  progresses := by
    rintro _ source before a after ⟨found, _, passes⟩
    exact progresses_passes passes

theorem faithful_word (text : String) : Faithful start region meaning (.word text) where
  means := by
    refine (means_made (Means.word text) fun _ => ()).congr fun source before a after => ?_
    constructor
    · rintro ⟨found, passes, _⟩
      exact ⟨found, passes⟩
    · rintro ⟨found, passes⟩
      exact ⟨found, passes, rfl⟩
  progresses := by
    rintro _ source before a after ⟨found, _, passes⟩
    exact progresses_passes passes

theorem faithful_lexeme {kind : TokenKind} (what : String) (real : kind ≠ .endOfInput) :
    Faithful start region meaning (lexeme kind what) where
  means := means_made (Means.token what real) _
  progresses := by
    rintro _ source before a after ⟨found, ⟨_, passes⟩, _⟩
    exact progresses_passes passes

theorem faithful_oneOf (words : List String) (what : String) :
    Faithful start region meaning (oneOf words what) where
  means := by
    refine means_made (Means.satisfying what fun offset => ?_) _
    rw [List.any_eq_false]
    intro word _
    exact Bool.false_ne_true
  progresses := by
    rintro _ source before a after ⟨found, ⟨_, passes⟩, _⟩
    exact progresses_passes passes

theorem faithful_name (kind : NameKind) : Faithful start region meaning (name kind) where
  means := Means.refer kind
  progresses := by
    rintro _ source before a after ⟨found, _, rest, _⟩
    rw [rest]
    exact Nat.lt_succ_self _

theorem faithful_definition (kind : NameKind) :
    Faithful start region meaning (definition kind) where
  means := (Means.token _ (Means.nameToken_ne kind)).bind fun found => Means.define kind found
  progresses := by
    rintro _ source before a after ⟨found, middle, ⟨_, passes⟩, defines⟩
    exact progresses_of_leads passes ((Means.define kind found).leads source _ _ _ defines)

theorem faithful_namedAttribute : Faithful start region meaning namedAttribute where
  means := Means.namedAttributeReads
  progresses := by
    intro _ source before a after related
    unfold Reads NamedAttributeReads at related
    split at related
    · exact progresses_embeds related.2
    · exact progresses_embeds related.2.2

/-! ### Combinations -/

theorem faithful_seq (one : Faithful start region meaning first)
    (two : Faithful start region meaning second) :
    Faithful start region meaning (seq first second) where
  means := by
    refine (one.means.bind fun a => two.means.bind fun b => .pure (a, b)).congr
      fun source before both after => ?_
    constructor
    · rintro ⟨a, middle, left, b, _, right, rfl, rfl⟩
      exact ⟨middle, left, right⟩
    · rintro ⟨middle, left, right⟩
      exact ⟨both.1, middle, left, both.2, after, right, rfl, rfl⟩
  progresses := by
    rintro consumes source before both after ⟨middle, left, right⟩
    rw [Grammar.consumes, Bool.or_eq_true] at consumes
    rcases consumes with consumes | consumes
    · exact Nat.lt_of_le_of_lt (two.means.leads _ _ _ _ right).length_le
        (one.progresses consumes _ _ _ _ left)
    · exact Nat.lt_of_lt_of_le (two.progresses consumes _ _ _ _ right)
        (one.means.leads _ _ _ _ left).length_le

theorem faithful_optional (present : Guard) (one : Faithful start region meaning inner) :
    Faithful start region meaning (optional present inner) where
  means := by
    refine (Means.cursor fun here => .ite (fun _ => one.means.map) fun _ => .pure none).congr
      fun source before found after => ?_
    simp only [Reads]
    split <;> exact .rfl
  progresses := by rintro ⟨⟩

theorem faithful_choice (isFirst : Guard) (one : Faithful start region meaning first)
    (two : Faithful start region meaning second) :
    Faithful start region meaning (choice isFirst first second) where
  means := by
    refine (Means.cursor fun here => .ite (fun _ => one.means.map) fun _ => two.means.map).congr
      fun source before either after => ?_
    simp only [Reads]
    split <;> exact .rfl
  progresses := by
    intro consumes source before either after related
    rw [Grammar.consumes, Bool.and_eq_true] at consumes
    rw [Reads] at related
    split at related
    · obtain ⟨a, related, _⟩ := related
      exact one.progresses consumes.1 _ _ _ _ related
    · obtain ⟨b, related, _⟩ := related
      exact two.progresses consumes.2 _ _ _ _ related

theorem faithful_spanned (one : Faithful start region meaning inner) :
    Faithful start region meaning (spanned inner) where
  means := by
    refine (Means.cursor fun start => one.means.bind fun a => Means.cursor fun now =>
      .pure (a, start.spanBetween now)).congr fun source before found after => ?_
    constructor
    · rintro ⟨a, middle, related, rfl, rfl⟩
      exact ⟨related, rfl⟩
    · rintro ⟨related, same⟩
      exact ⟨found.1, after, related, Prod.ext rfl same, rfl⟩
  progresses := by
    rintro consumes source before found after ⟨related, _⟩
    exact one.progresses consumes _ _ _ _ related

theorem faithful_binder (what : String) (one : Faithful start region meaning inner) :
    Faithful start region meaning (binder what inner) where
  means := by
    refine ((Means.token what (by rintro ⟨⟩)).bind fun found => one.means.bind fun a =>
      (Means.define .value found).bind fun defined => .pure (defined, a)).congr
        fun source before bound after => ?_
    constructor
    · rintro ⟨found, middle, passes, a, last, related, defined, _, defines, rfl, rfl⟩
      exact ⟨found, middle, last, passes, related, defines⟩
    · rintro ⟨found, middle, last, passes, related, defines⟩
      exact ⟨found, middle, passes, bound.2, last, related, bound.1, after, defines, rfl, rfl⟩
  progresses := by
    rintro _ source before bound after ⟨found, middle, last, ⟨_, passes⟩, related, defines⟩
    exact progresses_of_leads passes ((one.means.leads _ _ _ _ related).trans
      ((Means.define .value found).leads source _ _ _ defines))

theorem faithful_inScope (one : Faithful start region meaning inner) :
    Faithful start region meaning (inScope inner) where
  means := one.means.inScope
  progresses := by
    rintro consumes source before a _ ⟨inside, related, _, rfl⟩
    have shorter := one.progresses consumes _ _ _ _ related
    exact shorter

/-- Warning of what is left out changes nothing that has been read. -/
theorem faithful_recommended {inner : Grammar R (Option α)} (opcode : Opcode) (warning : String)
    (one : Faithful start region meaning inner) :
    Faithful start region meaning (recommended opcode warning inner) where
  means := by
    refine (one.means.bind fun found => .ite (fun _ => Means.cursor fun now =>
      (Means.warnDeprecated opcode warning (start.spanBetween now)).bind fun _ => .pure found)
        fun _ => .pure found).congr fun source before found after => ?_
    constructor
    · rintro ⟨a, middle, related, goesOn⟩
      split at goesOn
      · obtain ⟨_, _, rfl, rfl, rfl⟩ := goesOn
        exact related
      · obtain ⟨rfl, rfl⟩ := goesOn
        exact related
    · intro related
      refine ⟨found, after, related, ?_⟩
      split
      · exact ⟨(), after, rfl, rfl, rfl⟩
      · exact ⟨rfl, rfl⟩
  progresses := one.progresses

/-! ### Lists -/

theorem faithful_separated (one : Faithful start region meaning item) :
    Faithful start region meaning (separated item) where
  means := one.means.separated
  progresses := by
    rintro consumes source before found after ⟨middle, first, rest⟩
    exact Nat.lt_of_le_of_lt (one.means.tail.leads _ _ _ _ rest).length_le
      (one.progresses consumes _ _ _ _ first)

theorem faithful_bracketed (separator : Separator) (consumes : item.consumes = true)
    (one : Faithful start region meaning item) :
    Faithful start region meaning (bracketed separator item) where
  means := one.means.bracketed separator (one.progresses consumes)
  progresses := by
    rintro _ source before items after ⟨opening, middle, ⟨_, passes⟩, rest⟩
    exact progresses_of_leads passes (rest.leads one.means.leads)

/-! ### Grammars -/

/-- What a grammar reads is the meaning of its parser. -/
theorem parse_means (start : Cursor) {region : RegionKind → Bool → Parser R}
    {meaning : RegionKind → Bool → Meaning R}
    (regions : ∀ kind implicitTerminator,
      Means (region kind implicitTerminator) (meaning kind implicitTerminator))
    (grammar : Grammar R α) (steady : grammar.steady = true) :
    Faithful start region meaning grammar := by
  induction grammar with
  | blank => exact faithful_blank
  | punct mark => exact faithful_punct mark
  | word text => exact faithful_word text
  | lexeme kind what => exact faithful_lexeme what (bne_iff_ne.1 steady)
  | oneOf words what => exact faithful_oneOf words what
  | name kind => exact faithful_name kind
  | definition kind => exact faithful_definition kind
  | type => exact ⟨Means.typeReads, fun _ _ _ _ _ embeds => progresses_embeds embeds⟩
  | attributeOf form =>
    exact ⟨Means.attributeReads form, fun _ _ _ _ _ related => progresses_embeds related.2⟩
  | namedAttribute => exact faithful_namedAttribute
  | trailingAttribute => exact ⟨Means.trailingAttributeReads, by rintro ⟨⟩⟩
  | seq first second ihFirst ihSecond =>
    obtain ⟨left, right⟩ := Bool.and_eq_true_iff.1 steady
    exact faithful_seq (ihFirst left) (ihSecond right)
  | view as inner ih =>
    refine ⟨(ih steady).means.map, ?_⟩
    rintro consumes source before b after ⟨a, related, _⟩
    exact (ih steady).progresses consumes _ _ _ _ related
  | optional present inner ih => exact faithful_optional present (ih steady)
  | choice isFirst first second ihFirst ihSecond =>
    obtain ⟨left, right⟩ := Bool.and_eq_true_iff.1 steady
    exact faithful_choice isFirst (ihFirst left) (ihSecond right)
  | separated item ih => exact faithful_separated (ih steady)
  | listed item ih => exact ⟨(ih steady).means.listed, by rintro ⟨⟩⟩
  | listedWithEllipsis item ih => exact ⟨(ih steady).means.listedWithEllipsis, by rintro ⟨⟩⟩
  | bracketed separator item ih =>
    obtain ⟨consumes, steady⟩ := Bool.and_eq_true_iff.1 steady
    exact faithful_bracketed separator consumes (ih steady)
  | repeated next item ih =>
    obtain ⟨consumes, steady⟩ := Bool.and_eq_true_iff.1 steady
    exact ⟨(ih steady).means.repeated next ((ih steady).progresses consumes), by rintro ⟨⟩⟩
  | modifierRun table => exact ⟨(Means.modifierRun table.rules).map, by rintro ⟨⟩⟩
  | spanned inner ih => exact faithful_spanned (ih steady)
  | binder what inner ih => exact faithful_binder what (ih steady)
  | inScope inner ih => exact faithful_inScope (ih steady)
  | region kind implicitTerminator => exact ⟨regions kind implicitTerminator, by rintro ⟨⟩⟩
  | recommended opcode warning inner ih => exact faithful_recommended opcode warning (ih steady)

end Means

end Grammar

end CirText
