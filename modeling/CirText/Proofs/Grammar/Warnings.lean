import CirText.Proofs.Grammar.Entries
import CirText.Proofs.Grammar.Reads
import CirText.Proofs.Parser.Warnings

/-!
# What grammars warn of

A grammar warns of a part that has been left out although it should not be. In the body of an
operation such a part is the last one, so that the warning is about the operation as a whole.
Besides, whatever is owed for the regions of a value has been warned of when the value has been
read.
-/

namespace CirText

variable {R : Type}

namespace Grammar

variable {α β : Type}

/-! ## Regions of values -/

/-- The regions in a value, in the order in which they are printed. -/
def regionsOf (grammar : Grammar R α) (a : α) : List R :=
  (mentions (grammar.pieces a)).filterMap Mention.region?

theorem regionsOf_seq (first : Grammar R α) (second : Grammar R β) (both : α × β) :
    (seq first second).regionsOf both = first.regionsOf both.1 ++ second.regionsOf both.2 := by
  rw [regionsOf, pieces_seq, mentions_append, List.filterMap_append]
  rfl

theorem regionsOf_view (as : View α β) (inner : Grammar R α) (a : α) :
    (view as inner).regionsOf (as.build a) = inner.regionsOf a := by
  rw [regionsOf, pieces_view]
  rfl

theorem regionsOf_items (item : Grammar R α) (items : List α) :
    ((items.map item.pieces).flatMap mentions).filterMap Mention.region? =
      items.flatMap item.regionsOf := by
  rw [List.flatMap_map, List.filterMap_flatMap]
  rfl

theorem regionsOf_bracketed (separator : Separator) (item : Grammar R α) (items : List α) :
    (bracketed separator item).regionsOf items = items.flatMap item.regionsOf := by
  rw [← regionsOf_items, regionsOf, pieces_bracketed, mentions_punct, mentions_append,
    mentions_arrange]
  simp

theorem regionsOf_modifier (modifier : Modifier) :
    (mentions (modifier.pieces (R := R))).filterMap Mention.region? = [] := by
  obtain ⟨rule, _ | argument⟩ := modifier
  · simp [Modifier.pieces]
  · cases form : rule.argument with
    | none => simp [Modifier.pieces, form]
    | some form => cases argument <;> simp [Modifier.pieces, form, Argument.piece]

/-- A plain grammar describes no regions. -/
theorem regionsOf_plain {grammar : Grammar R α} (plain : grammar.isPlain = true) (a : α) :
    grammar.regionsOf a = [] := by
  have none_ : ∀ {α : Type} {item : Grammar R α}, (∀ a, item.regionsOf a = []) → ∀ items : List α,
      ((items.map item.pieces).flatMap mentions).filterMap Mention.region? = [] := by
    intro α item each items
    rw [regionsOf_items, List.flatMap_eq_nil_iff]
    exact fun a _ => each a
  induction grammar with
  | blank | punct | word | lexeme | oneOf | type | attributeOf | namedAttribute | name
  | definition => rfl
  | trailingAttribute => cases a <;> rfl
  | seq first second ihFirst ihSecond =>
    obtain ⟨left, right⟩ := Bool.and_eq_true_iff.1 plain
    rw [regionsOf_seq, ihFirst left, ihSecond right, List.append_nil]
  | view as inner ih =>
    rw [regionsOf, pieces]
    cases as.read a with
    | none => rfl
    | some inside => exact ih plain inside
  | optional present inner ih =>
    cases a with
    | none => rfl
    | some inside => exact ih plain inside
  | choice isFirst first second ihFirst ihSecond =>
    obtain ⟨left, right⟩ := Bool.and_eq_true_iff.1 plain
    cases a with
    | inl inside => exact ihFirst left inside
    | inr inside => exact ihSecond right inside
  | separated item ih =>
    obtain ⟨head, tail⟩ := a
    rw [regionsOf, pieces, mentions_commaed]
    exact none_ (ih plain) (head :: tail)
  | listed item ih | repeated next item ih =>
    rw [regionsOf, pieces, mentions_commaed]
    exact none_ (ih plain) a
  | listedWithEllipsis item ih =>
    obtain ⟨items, ellipsis⟩ := a
    rw [regionsOf, pieces, mentions_commaed, List.flatMap_append, List.filterMap_append,
      none_ (ih plain) items]
    cases ellipsis <;> rfl
  | bracketed separator item ih =>
    rw [regionsOf_bracketed, List.flatMap_eq_nil_iff]
    exact fun a _ => ih plain a
  | modifierRun table =>
    rw [regionsOf, pieces, mentions_flatMap, List.filterMap_flatMap, List.flatMap_eq_nil_iff]
    exact fun modifier _ => regionsOf_modifier modifier
  | spanned inner ih => exact ih plain a.1
  | binder what inner ih => exact ih plain a.2
  | inScope inner ih => exact ih plain a
  | region | recommended => cases plain

/-! ## Parts that are missed -/

/-- What should not have been left out of a value, as far as it would stand at the end. -/
def missing? : {α : Type} → Grammar R α → α → Option (Opcode × String)
  | _, .seq _ second, both => second.missing? both.2
  | _, .view as inner, b => (as.read b).bind inner.missing?
  | _, .optional _ inner, found => found.bind inner.missing?
  | _, .choice _ first _, .inl a => first.missing? a
  | _, .choice _ _ second, .inr b => second.missing? b
  | _, .inScope inner, a => inner.missing? a
  | _, .recommended opcode warning _, found => if found.isNone then some (opcode, warning) else none
  | _, _, _ => none

/-- Whether parts that should not be left out stand at the end only, and there only if that is
allowed. -/
def recommendsLast : {α : Type} → (allowed : Bool) → Grammar R α → Bool
  | _, allowed, .seq first second => first.recommendsLast false && second.recommendsLast allowed
  | _, allowed, .choice _ first second =>
    first.recommendsLast allowed && second.recommendsLast allowed
  | _, allowed, .view _ inner | _, allowed, .optional _ inner | _, allowed, .inScope inner =>
    inner.recommendsLast allowed
  | _, _, .bracketed _ item => item.recommendsLast false
  | _, _, .region _ _ => true
  | _, allowed, .recommended _ _ inner => allowed && inner.isPlain
  | _, _, grammar => grammar.isPlain

theorem missing?_eq_none {grammar : Grammar R α} (tidy : grammar.recommendsLast false = true)
    (a : α) : grammar.missing? a = none := by
  induction grammar with
  | seq first second _ ih =>
    obtain ⟨_, right⟩ := Bool.and_eq_true_iff.1 tidy
    exact ih right a.2
  | view as inner ih =>
    cases read : as.read a with
    | none => simp only [missing?, read, Option.bind_none]
    | some inside => simpa only [missing?, read, Option.bind_some] using ih tidy inside
  | optional present inner ih =>
    cases a with
    | none => rfl
    | some inside => exact ih tidy inside
  | choice isFirst first second ihFirst ihSecond =>
    obtain ⟨left, right⟩ := Bool.and_eq_true_iff.1 tidy
    cases a with
    | inl inside => exact ihFirst left inside
    | inr inside => exact ihSecond right inside
  | inScope inner ih => exact ih tidy a
  | recommended opcode warning inner => cases tidy
  | _ => rfl

theorem body_recommendsLast (opcode : Opcode) (form : Form) :
    (body (R := R) opcode form).recommendsLast true = true := by
  unfold body
  split <;> rfl

/-! ## Warnings of grammars -/

/-- Whether warnings are those that are owed for the regions of a value and for what is missing at
its end. -/
def Warned (grammar : Grammar R α) (owed : R → List (Option Diagnostic)) (start : Cursor)
    (new : List Diagnostic) (a : α) (after : Cursor) : Prop :=
  Parser.Settles new ((grammar.regionsOf a).flatMap owed ++
    (grammar.missing? a).toList.map fun missed =>
      some (.warning (.deprecated missed.1 missed.2) (start.spanBetween after)))

section

open CirText.Parser

variable {first start : Cursor} {region : RegionKind → Bool → Parser R}
  {meaning : RegionKind → Bool → Meaning R} {owed : R → List (Option Diagnostic)}

/-- A plain grammar warns of nothing. -/
theorem warned_plain (regions : ∀ kind implicitTerminator,
      Means (region kind implicitTerminator) (meaning kind implicitTerminator))
    {grammar : Grammar R α} (steady : grammar.steady = true) (plain : grammar.isPlain = true) :
    Warns first (grammar.parse start region) fun new _ _ a _ => new = [] ∧
      grammar.regionsOf a = [] := by
  have others : grammar.isPlain = false →
      (∀ opcode message span, Mute (Parser.warnDeprecated opcode message span)) ∧
        ∀ kind implicitTerminator, Mute (region kind implicitTerminator) := by
    rw [plain]
    rintro ⟨⟩
  have forward : grammar.isPlain = false →
      (∀ opcode message span, Forward (Parser.warnDeprecated opcode message span)) ∧
        ∀ kind implicitTerminator, Forward (region kind implicitTerminator) := by
    rw [plain]
    rintro ⟨⟩
  refine (Warns.ofMeans (parse_means start regions grammar steady).1
    (inherited_mute.grammar start grammar others)
    (inherited_forward.grammar start grammar forward)).mono ?_
  rintro new source before a after ⟨rfl, _⟩
  exact ⟨rfl, regionsOf_plain plain a⟩

/-- The items of a bracketed list warn of what is owed for their regions. -/
theorem bracketed_warns {item : Parser α} {meaning : Meaning α}
    {owed : α → List (Option Diagnostic)}
    (separator : Separator) (means : Means item meaning) (progresses : meaning.Progresses)
    (warns : Warns first item fun new _ _ a _ => Settles new (owed a)) :
    Warns first (Parser.bracketed separator item) fun new _ _ items _ =>
      Settles new (items.flatMap owed) := by
  let next : List Diagnostic → Meaning (Option α × Bool) := fun new _ before found after =>
    Settles new (found.1.toList.flatMap owed) ∧
      (found.2 = true → after.rest.length < before.rest.length)
  have ended : Warns first (Pure.pure (none, false)) next := by
    refine (Warns.pure _).mono ?_
    rintro _ source before _ after ⟨rfl, rfl, rfl⟩
    exact ⟨.refl _, by rintro ⟨⟩⟩
  have separated : ∀ a : α, Warns first (do
      if separator = .comma then
        let _ ← Parser.eat .comma
      Pure.pure (some a, true)) fun new _ before found after =>
        new = [] ∧ found = (some a, true) ∧ after.rest.length ≤ before.rest.length := by
    intro a
    refine .ite (fun _ => ((Warns.eat .comma).bind fun _ => .pure _).mono ?_) fun _ =>
      (Warns.pure _).mono ?_
    · rintro _ source before _ after ⟨_, middle, _, _, rfl, ⟨rfl, fewer⟩, rfl, rfl, rfl⟩
      exact ⟨rfl, rfl, fewer⟩
    · rintro _ source before _ after ⟨rfl, rfl, rfl⟩
      exact ⟨rfl, rfl, Nat.le_refl _⟩
  have another : Warns first (item >>= fun a => do
      if separator = .comma then
        let _ ← Parser.eat .comma
      Pure.pure (some a, true)) next := by
    refine ((warns.withMeaning means).bind separated).mono ?_
    rintro _ source before _ after ⟨a, middle, new, _, rfl, ⟨given, related⟩, rfl, rfl, fewer⟩
    refine ⟨by simpa using given, fun _ => ?_⟩
    exact Nat.lt_of_le_of_lt fewer (progresses _ _ _ _ related)
  have opened : Warns first (Parser.punct .leftBracket) fun new _ _ _ _ => new = [] :=
    .silent (Means.punct _) (inherited_mute.punct _) (inherited_forward.punct _)
  have steps : Warns first (do
      if ← Parser.eat .rightBracket then
        Pure.pure (none, false)
      else if (← Parser.cursor).atEnd then
        Parser.expected "`]`"
      else
        let found ← item
        if separator = .comma then
          let _ ← Parser.eat .comma
        Pure.pure (some found, true)) next := by
    refine ((Warns.eat .rightBracket).bind fun _ => .ite (fun _ => ended) fun _ => .look fun here =>
      .ite (fun _ => .wrong (Means.expected _)) fun _ => another).mono ?_
    rintro _ source before found after ⟨_, middle, _, new, rfl, ⟨rfl, fewer⟩, given, progress⟩
    exact ⟨given, fun goesOn => Nat.lt_of_lt_of_le (progress goesOn) fewer⟩
  refine (opened.bind fun _ => Warns.collect steps).mono ?_
  rintro _ source before items after ⟨_, _, _, new, rfl, rfl, given⟩
  exact given

/-- A grammar warns of what is missing at its end and of what is owed for its regions. -/
theorem parse_warns (regions : ∀ kind implicitTerminator,
      Means (region kind implicitTerminator) (meaning kind implicitTerminator))
    (owes : ∀ kind implicitTerminator,
      Warns first (region kind implicitTerminator) fun new _ _ inner _ =>
      Settles new (owed inner))
    {α : Type} (grammar : Grammar R α) (steady : grammar.steady = true) {allowed : Bool}
    (tidy : grammar.recommendsLast allowed = true) :
    Warns first (grammar.parse start region) fun new _ _ a after =>
      grammar.Warned owed start new a after.cursor := by
  have ofPlain : ∀ {α : Type} {grammar : Grammar R α}, grammar.steady = true →
      grammar.isPlain = true → (∀ a, grammar.missing? a = none) →
      Warns first (grammar.parse start region) fun new _ _ a after =>
        grammar.Warned owed start new a after.cursor := by
    intro α grammar steady plain complete
    refine (warned_plain regions steady plain).mono ?_
    rintro new source before a after ⟨rfl, none_⟩
    rw [Warned, none_, complete]
    exact .refl _
  induction grammar generalizing allowed with
  | blank | punct | word | lexeme | oneOf | name | definition | type | attributeOf | namedAttribute
  | trailingAttribute | modifierRun => exact ofPlain steady rfl fun _ => rfl
  | separated item | listed item | listedWithEllipsis item | repeated next item | spanned inner
  | binder what inner => exact ofPlain steady tidy fun _ => rfl
  | seq before behind ihFirst ihSecond =>
    obtain ⟨steadyFirst, steadySecond⟩ := Bool.and_eq_true_iff.1 steady
    obtain ⟨tidyFirst, tidySecond⟩ := Bool.and_eq_true_iff.1 tidy
    refine ((ihFirst steadyFirst tidyFirst).bind fun a =>
      (ihSecond steadySecond tidySecond).bind fun b =>
      .pure (a, b)).mono ?_
    rintro _ source start _ after ⟨a, middle, early, _, rfl, left, b, _, late, _, rfl,
      right, rfl, rfl, rfl⟩
    rw [Warned, missing?_eq_none tidyFirst, Option.toList_none, List.map_nil,
      List.append_nil] at left
    rw [Warned, regionsOf_seq, List.flatMap_append, List.append_assoc, List.append_nil]
    exact left.append right
  | view as inner ih =>
    refine (Warns.map (ih steady tidy)).mono ?_
    rintro new source before _ after ⟨a, owing, rfl⟩
    rw [Warned, regionsOf_view, missing?, as.read_build]
    exact owing
  | optional present inner ih =>
    refine Warns.look fun here => .ite (fun _ => (Warns.map (ih steady tidy)).mono ?_)
      fun _ => (Warns.pure none).mono ?_
    · rintro new source before _ after ⟨a, owing, rfl⟩
      exact owing
    · rintro _ source before _ after ⟨rfl, rfl, rfl⟩
      exact .refl _
  | choice isFirst left right ihLeft ihRight =>
    obtain ⟨steadyLeft, steadyRight⟩ := Bool.and_eq_true_iff.1 steady
    obtain ⟨tidyLeft, tidyRight⟩ := Bool.and_eq_true_iff.1 tidy
    refine Warns.look fun here => .ite (fun _ => (Warns.map (ihLeft steadyLeft tidyLeft)).mono ?_)
      fun _ => (Warns.map (ihRight steadyRight tidyRight)).mono ?_
    · rintro new source before _ after ⟨a, owing, rfl⟩
      exact owing
    · rintro new source before _ after ⟨b, owing, rfl⟩
      exact owing
  | bracketed separator item ih =>
    obtain ⟨consumes, steady⟩ := Bool.and_eq_true_iff.1 steady
    obtain ⟨means, progresses⟩ := parse_means start regions item steady
    have each : Warns first (item.parse start region) fun new _ _ a _ =>
        Settles new ((item.regionsOf a).flatMap owed) := by
      refine (ih steady tidy).mono ?_
      intro new source before a after owing
      rw [Warned, missing?_eq_none tidy] at owing
      simpa using owing
    refine (bracketed_warns separator means (progresses consumes) each).mono ?_
    intro new source before items after owing
    rw [Warned, regionsOf_bracketed, List.flatMap_assoc]
    simpa [missing?] using owing
  | inScope inner ih => exact (ih steady tidy).inScope
  | region kind implicitTerminator =>
    refine (owes kind implicitTerminator).mono ?_
    intro new source before inner after owing
    simpa [Warned, regionsOf, pieces, missing?] using owing
  | @recommended γ opcode warning inner =>
    obtain ⟨_, plain⟩ := Bool.and_eq_true_iff.1 tidy
    have quiet : Warns first (inner.parse start region) fun new _ _ a _ =>
        new = [] ∧ inner.regionsOf a = [] := warned_plain regions steady plain
    let told : Bool → Stage → List Diagnostic := fun missed after =>
      if missed then [.warning (.deprecated opcode warning)
        (start.spanBetween after.cursor)] else []
    have tells : ∀ found : Option γ, Warns first (do
        if found.isNone then
          Parser.warnDeprecated opcode warning (start.spanBetween (← Parser.cursor))
        Pure.pure found) fun new _ _ result after => result = found ∧ new =
        told found.isNone after := by
      intro found
      refine .ite (fun missed => (Warns.cursor fun now =>
        (Warns.warnDeprecated opcode warning (start.spanBetween now)).bind fun _ =>
          .pure found).mono ?_) fun given => (Warns.pure found).mono ?_
      · rintro _ source before _ after ⟨_, _, _, _, rfl, ⟨rfl, rfl⟩, rfl, rfl, rfl⟩
        simp [told, missed]
      · rintro _ source before _ after ⟨rfl, rfl, rfl⟩
        simp [told, given]
    refine (quiet.bind tells).mono ?_
    rintro _ source before found after ⟨_, _, _, _, rfl, ⟨rfl, none_⟩, rfl, rfl⟩
    have regionless : (recommended opcode warning inner).regionsOf found = [] := none_
    cases missed : found.isNone <;> simp [Warned, regionless, missing?, told, missed, Settles]

end

end Grammar

end CirText
