import CirText.Proofs.Parser.Uses

/-!
# What grammars yield

`Grammar.Yields` describes the values that a grammar can yield, whatever the tokens are and wherever
they stand: names are of the kind asked for, attributes are of a form asked for, and modifiers come
from a run of the table. Regions may be any.
-/

namespace CirText

variable {R : Type}

namespace Grammar

/-- Whether a grammar can yield a value. -/
def Yields : {α : Type} → Grammar R α → α → Prop
  | _, .name kind, used => used.kind = kind
  | _, .definition kind, defined => defined.kind = kind
  | _, .attributeOf form, value => value.form = form
  | _, .namedAttribute, value => value.form = .aliasName ∨ value.form = .dialect
  | _, .trailingAttribute, extra =>
    ∀ value ∈ extra, value.form = .aliasName ∨ value.form = .dictionary
  | _, .seq first second, both => first.Yields both.1 ∧ second.Yields both.2
  | _, .view as inner, b => ∃ a, as.build a = b ∧ inner.Yields a
  | _, .optional _ inner, found => ∀ a ∈ found, inner.Yields a
  | _, .choice _ first _, .inl a => first.Yields a
  | _, .choice _ _ second, .inr b => second.Yields b
  | _, .separated item, (head, tail) => ∀ a ∈ head :: tail, item.Yields a
  | _, .listed item, items => ∀ a ∈ items, item.Yields a
  | _, .listedWithEllipsis item, (items, _) => ∀ a ∈ items, item.Yields a
  | _, .bracketed _ item, items => ∀ a ∈ items, item.Yields a
  | _, .repeated _ item, items => ∀ a ∈ items, item.Yields a
  | _, .modifierRun table, record =>
    ∃ modifiers, ModifierTable.Run table.rules modifiers ∧ table.collect modifiers = record
  | _, .spanned inner, (a, _) => inner.Yields a
  | _, .binder _ inner, (defined, a) => defined.kind = .value ∧ inner.Yields a
  | _, .inScope inner, a => inner.Yields a
  | _, .recommended _ _ inner, found => inner.Yields found
  | _, _, _ => True

variable {α : Type}

theorem Yields.builds {grammar : Grammar R α} {a : α} (yields : grammar.Yields a) :
    grammar.Builds a := by
  cases grammar with
  | view as inner =>
    obtain ⟨inside, built, _⟩ := yields
    exact ⟨inside, built⟩
  | _ => trivial

/-! ## Parts with marks around them -/

@[simp]
theorem yields_before (first : Grammar R Unit) (rest : Grammar R α) (a : α) :
    (before first rest).Yields a ↔ first.Yields () ∧ rest.Yields a :=
  ⟨fun ⟨_, same, yields⟩ => same ▸ yields, fun yields => ⟨((), a), rfl, yields⟩⟩

@[simp]
theorem yields_followedBy (inner : Grammar R α) (last : Grammar R Unit) (a : α) :
    (followedBy inner last).Yields a ↔ inner.Yields a ∧ last.Yields () :=
  ⟨fun ⟨_, same, yields⟩ => same ▸ yields, fun yields => ⟨(a, ()), rfl, yields⟩⟩

@[simp]
theorem yields_mark (mark : Punct) (rest : Grammar R α) (a : α) :
    (Grammar.mark mark rest).Yields a ↔ rest.Yields a := by
  rw [Grammar.mark, yields_before]
  exact and_iff_right trivial

@[simp]
theorem yields_spaced (rest : Grammar R α) (a : α) : (spaced rest).Yields a ↔ rest.Yields a := by
  rw [spaced, yields_before]
  exact and_iff_right trivial

@[simp]
theorem yields_parens (inner : Grammar R α) (a : α) : (parens inner).Yields a ↔ inner.Yields a := by
  rw [parens, between, yields_mark, yields_followedBy]
  exact and_iff_left trivial

end Grammar

/-! ## What is parsed -/

open CirText.Parser in
theorem Parser.Traced.namedAttribute_form :
    Traced Parser.namedAttribute fun _ value => value.form = .aliasName ∨
      value.form = .dialect := by
  refine .look fun here => .ite (fun _ => ?_) fun _ => .ite (fun _ => ?_) fun _ => .expected _
  · exact (Traced.attributeOf _).mono fun _ _ form => .inl form
  · exact (Traced.attributeOf _).mono fun _ _ form => .inr form

open CirText.Parser in
theorem Parser.Traced.trailingAttribute_form :
    Traced Parser.trailingAttribute fun _ extra =>
      ∀ value ∈ extra, value.form = .aliasName ∨ value.form = .dictionary := by
  refine .look fun here => .ite (fun _ => ?_) fun _ => .ite (fun _ => ?_) fun _ => .pure (by simp)
  · refine (Traced.attributeOf _).map fun _ value form => ?_
    rintro _ ⟨⟩
    exact .inl form
  · refine (Traced.attributeOf _).map fun _ value form => ?_
    rintro _ ⟨⟩
    exact .inr form

open CirText.Parser in
/-- The parser of a grammar gives only what the grammar yields. -/
theorem Grammar.parse_yields (start : Cursor) {inner : RegionKind → Bool → Parser R}
    (traced : ∀ kind implicitTerminator, (inner kind implicitTerminator).Traced fun _ _ => True)
    {α : Type} (grammar : Grammar R α) :
    (grammar.parse start inner).Traced fun _ a => grammar.Yields a := by
  induction grammar with
  | blank => exact .pure trivial
  | punct mark => exact (Traced.punct mark).andThen fun _ _ => .pure trivial
  | word text => exact (Traced.word text).andThen fun _ _ => .pure trivial
  | lexeme kind what => exact (Traced.token kind what).bind fun _ _ _ => .pure trivial
  | oneOf words what => exact (Traced.satisfying _ what).bind fun _ _ _ => .pure trivial
  | name kind => exact (Traced.refer kind).mono fun _ _ found => found.2
  | definition kind =>
    exact Traced.definition kind _
  | type => exact Traced.type.mono fun _ _ _ => trivial
  | attributeOf form => exact Traced.attributeOf form
  | namedAttribute => exact Traced.namedAttribute_form
  | trailingAttribute => exact Traced.trailingAttribute_form
  | seq first second ihFirst ihSecond =>
    exact ihFirst.bind fun _ a yieldsFirst => ihSecond.bind fun _ b yieldsSecond =>
      .pure ⟨yieldsFirst, yieldsSecond⟩
  | view as inner ih => exact ih.map fun _ a yields => ⟨a, rfl, yields⟩
  | optional present inner ih =>
    refine .look fun here => .ite (fun _ => ?_) fun _ => .pure (by rintro _ ⟨⟩)
    refine ih.map fun _ a yields => ?_
    rintro _ ⟨⟩
    exact yields
  | choice isFirst first second ihFirst ihSecond =>
    refine .look fun here => .ite (fun _ => ?_) fun _ => ?_
    · exact ihFirst.map fun _ _ yields => yields
    · exact ihSecond.map fun _ _ yields => yields
  | separated item ih => exact Traced.separated (fun _ _ _ yields _ => yields) ih
  | listed item ih => exact Traced.listed (fun _ _ _ yields _ => yields) ih
  | listedWithEllipsis item ih => exact Traced.listedWithEllipsis (fun _ _ _ yields _ => yields) ih
  | bracketed separator item ih =>
    exact Traced.bracketed separator (fun _ _ _ yields _ => yields) ih
  | repeated next item ih => exact Traced.repeated next (fun _ _ _ yields _ => yields) ih
  | modifierRun table =>
    exact (Traced.modifierRun table.rules).map fun _ modifiers run => ⟨_, run.1, rfl⟩
  | spanned inner ih =>
    exact .look fun before => ih.bind fun _ a yields => .look fun after => .pure yields
  | binder what inner ih =>
    refine (Traced.token _ what).bind fun _ found _ => ih.bind fun _ a yields => ?_
    exact (Traced.define (by decide) found).bind fun _ defined isValue => .pure ⟨isValue, yields⟩
  | inScope inner ih => exact ih.inScope
  | region kind implicitTerminator => exact traced kind implicitTerminator
  | recommended opcode warning inner ih =>
    refine ih.bind fun _ a yields => .ite (fun _ => .look fun now => ?_) fun _ => .pure yields
    exact (Traced.warnDeprecated _ _ _).andThen fun _ _ => .pure yields

end CirText
