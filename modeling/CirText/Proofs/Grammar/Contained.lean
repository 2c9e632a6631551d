import CirText.Proofs.Parser.Interruption

/-!
# Grammars under cancellation

The parser of a grammar is interruptible, since a cancellation is only noticed in regions. If all
values and labels that a grammar defines belong to a scope of their own, it is contained: it leaves
the current scope as it is. The bodies of all operations are of this kind, so the results of an
operation can be defined after its body.
-/

namespace CirText

variable {R α β : Type}

/-! ## Lists -/

namespace Parser.InterruptibleWith

variable {contained : Bool} {item : Parser α}

theorem separated (h : Interruptible contained item) :
    Interruptible contained (Parser.separated item) := by
  apply h.bind
  intro head
  apply bind
  · apply collect
    apply (eat .comma).bind
    intro goesOn
    exact ite (h.bind fun _ => pure) pure
  · exact fun _ => pure

theorem listed (h : Interruptible contained item) :
    Interruptible contained (Parser.listed item) :=
  look fun _ => ite pure ((separated h).bind fun _ => pure)

theorem listedWithEllipsis (h : Interruptible contained item) :
    Interruptible contained (Parser.listedWithEllipsis item) := by
  apply look
  intro here
  apply ite pure
  apply loop
  intro items
  apply (eat .ellipsis).bind
  intro stops
  apply ite pure
  apply h.bind
  intro found
  apply (eat .comma).bind
  intro goesOn
  exact ite pure pure

theorem bracketed (separator : Separator) (h : Interruptible contained item) :
    Interruptible contained (Parser.bracketed separator item) := by
  apply (punct .leftBracket).bind
  intro opening
  apply collect
  apply (eat .rightBracket).bind
  intro stops
  apply ite pure
  apply look
  intro here
  apply ite (expected _)
  apply h.bind
  intro found
  apply ite
  · exact (eat .comma).bind fun _ => pure
  · exact pure

theorem repeated (next : Guard) (h : Interruptible contained item) :
    Interruptible contained (Parser.repeated next item) := by
  apply collect
  apply look
  intro here
  apply ite _ pure
  apply h.bind
  intro found
  exact (eat .comma).bind fun _ => pure

/-! ## Attributes and modifiers -/

theorem namedAttribute : Interruptible contained Parser.namedAttribute :=
  look fun _ => ite (attributeOf _) (ite (attributeOf _) (expected _))

theorem trailingAttribute : Interruptible contained Parser.trailingAttribute :=
  look fun _ => ite (attributeOf _).map (ite (attributeOf _).map pure)

theorem argumentOf (kind : ArgumentKind) : Interruptible contained (Parser.argumentOf kind) := by
  cases kind with
  | word => exact (token _ _).bind fun _ => pure
  | integer => exact (token _ _).bind fun _ => pure
  | «symbol» => exact (refer .symbol).map
  | «attribute» => exact namedAttribute.map

theorem modifierArgument (form : Option ArgumentSyntax) :
    Interruptible contained (Parser.modifierArgument form) := by
  cases form with
  | none => exact pure
  | some form =>
    apply look
    intro here
    apply ite pure
    apply (punct _).bind
    intro opening
    apply (argumentOf form.kind).bind
    intro argument
    exact (punct _).bind fun _ => pure

theorem reportRepeated (rule earlier : ModifierRule) (span : Span) :
    Interruptible contained (Parser.reportRepeated rule earlier span) :=
  look fun _ => report rfl rfl

theorem modifierRun (rules : List ModifierRule) :
    Interruptible contained (Parser.modifierRun rules) := by
  apply loop
  intro modifiers
  apply look
  intro here
  cases rules.find? fun rule => here.atWord rule.keyword with
  | none => exact pure
  | some rule =>
    apply skip.bind
    intro _
    apply (modifierArgument rule.argument).bind
    intro argument
    cases ModifierTable.filling? modifiers rule.slot with
    | none => exact pure
    | some earlier => exact look fun _ => (reportRepeated rule earlier.rule _).bind fun _ => pure

end Parser.InterruptibleWith

/-! ## Grammars -/

namespace Grammar

/-- Whether all values and labels that are defined belong to a scope of their own. -/
def contained : {α : Type} → Grammar R α → Bool
  | _, .definition kind => kind == .symbol
  | _, .binder _ _ | _, .region _ _ => false
  | _, .inScope _ => true
  | _, .seq first second => first.contained && second.contained
  | _, .choice _ first second => first.contained && second.contained
  | _, .view _ inner | _, .optional _ inner | _, .separated inner | _, .listed inner
  | _, .listedWithEllipsis inner | _, .bracketed _ inner | _, .repeated _ inner
  | _, .spanned inner | _, .recommended _ _ inner => inner.contained
  | _, _ => true

theorem body_contained (opcode : Opcode) (form : Form) :
    (body (R := R) opcode form).contained = true := by
  unfold body
  split
  all_goals rfl

open CirText.Parser in
/-- The parser of a grammar is interruptible if the parser of regions is. -/
theorem parse_interruptible (start : Cursor) {region : RegionKind → Bool → Parser R}
    (regions : ∀ kind implicitTerminator, Interruptible false (region kind implicitTerminator))
    {α : Type} (grammar : Grammar R α) {contained : Bool}
    (allowed : contained = true → grammar.contained = true) :
    Interruptible contained (grammar.parse start region) := by
  induction grammar generalizing contained with
  | blank => exact .pure
  | punct mark => exact (InterruptibleWith.punct mark).bind fun _ => .pure
  | word text => exact (InterruptibleWith.word text).bind fun _ => .pure
  | lexeme kind what => exact (InterruptibleWith.token kind what).bind fun _ => .pure
  | oneOf words what => exact (InterruptibleWith.satisfying _ what).bind fun _ => .pure
  | name kind => exact .refer kind
  | definition kind =>
    exact .definition (fun isContained => by simpa [Grammar.contained] using allowed isContained) _
  | type => exact .type
  | attributeOf form => exact .attributeOf form
  | namedAttribute => exact .namedAttribute
  | trailingAttribute => exact .trailingAttribute
  | seq first second ihFirst ihSecond =>
    have both : contained = true → first.contained = true ∧ second.contained = true := by
      simpa only [Grammar.contained, Bool.and_eq_true] using allowed
    apply (ihFirst fun h => (both h).1).bind
    intro a
    exact (ihSecond fun h => (both h).2).bind fun b => .pure
  | view as inner ih => exact (ih allowed).map
  | optional present inner ih => exact .look fun _ => .ite (ih allowed).map .pure
  | choice isFirst first second ihFirst ihSecond =>
    have both : contained = true → first.contained = true ∧ second.contained = true := by
      simpa only [Grammar.contained, Bool.and_eq_true] using allowed
    exact .look fun _ => .ite (ihFirst fun h => (both h).1).map (ihSecond fun h => (both h).2).map
  | separated item ih => exact .separated (ih allowed)
  | listed item ih => exact .listed (ih allowed)
  | listedWithEllipsis item ih => exact .listedWithEllipsis (ih allowed)
  | bracketed separator item ih => exact .bracketed separator (ih allowed)
  | repeated next item ih => exact .repeated next (ih allowed)
  | modifierRun table => exact (InterruptibleWith.modifierRun table.rules).map
  | spanned inner ih =>
    exact .look fun _ => (ih allowed).bind fun _ => .look fun _ => .pure
  | binder what inner ih =>
    cases contained with
    | true => exact absurd (allowed rfl) Bool.false_ne_true
    | false =>
      apply (InterruptibleWith.token _ what).bind
      intro found
      apply (ih Bool.noConfusion).bind
      intro a
      exact (InterruptibleWith.define (by decide) Bool.noConfusion found).bind fun _ => .pure
  | inScope inner ih => exact (ih Bool.noConfusion).inScope
  | region kind implicitTerminator =>
    cases contained with
    | true => exact absurd (allowed rfl) Bool.false_ne_true
    | false => exact regions kind implicitTerminator
  | recommended opcode warning inner ih =>
    apply (ih allowed).bind
    intro found
    apply InterruptibleWith.ite _ .pure
    exact .look fun _ => (InterruptibleWith.warnDeprecated _ _ _).bind fun _ => .pure

end Grammar

end CirText
