import CirText.Proofs.Parser.Limit

/-!
# Grammars under a nesting limit

The parser of a grammar goes alike with two limits if the parsers of regions do. Nothing that a
grammar expects reads like a nesting limit.
-/

namespace CirText

variable {R α β : Type}

/-! ## Lists -/

namespace Parser.LimitedWith

variable {shallow deep : Parser α}

theorem separated (h : Limited shallow deep) :
    Limited (Parser.separated shallow) (Parser.separated deep) := by
  apply h.bind
  intro head
  apply bind
  · apply collect
    apply bindSteady (eat .comma)
    intro goesOn
    exact ite (h.bind fun _ => pure) pure
  · exact fun _ => pure

theorem listed (h : Limited shallow deep) : Limited (Parser.listed shallow) (Parser.listed deep) :=
  look fun _ => ite pure ((separated h).bind fun _ => pure)

theorem listedWithEllipsis (h : Limited shallow deep) :
    Limited (Parser.listedWithEllipsis shallow) (Parser.listedWithEllipsis deep) := by
  apply look
  intro here
  apply ite pure
  apply loop
  intro items
  apply bindSteady (eat .ellipsis)
  intro stops
  apply ite pure
  apply h.bind
  intro found
  apply bindSteady (eat .comma)
  intro goesOn
  exact ite pure pure

theorem bracketed (separator : Separator) (h : Limited shallow deep) :
    Limited (Parser.bracketed separator shallow) (Parser.bracketed separator deep) := by
  apply bindSteady (punct .leftBracket)
  intro opening
  apply collect
  apply bindSteady (eat .rightBracket)
  intro stops
  apply ite pure
  apply look
  intro here
  apply ite (expected (namesNoLimit_quoted "]"))
  apply h.bind
  intro found
  apply ite
  · exact bindSteady (eat .comma) fun _ => pure
  · exact pure

theorem repeated (next : Guard) (h : Limited shallow deep) :
    Limited (Parser.repeated next shallow) (Parser.repeated next deep) := by
  apply collect
  apply look
  intro here
  apply ite _ pure
  apply h.bind
  intro found
  exact bindSteady (eat .comma) fun _ => pure

/-! ## Attributes and modifiers -/

theorem namedAttribute : Limited Parser.namedAttribute Parser.namedAttribute :=
  look fun _ => ite embed (ite embed (expected rfl))

theorem trailingAttribute : Limited Parser.trailingAttribute Parser.trailingAttribute :=
  look fun _ => ite (map embed) (ite (map embed) pure)

theorem argumentOf (kind : ArgumentKind) :
    Limited (Parser.argumentOf kind) (Parser.argumentOf kind) := by
  cases kind with
  | word => exact bindSteady (token rfl) fun _ => pure
  | integer => exact bindSteady (token rfl) fun _ => pure
  | «symbol» => exact map (refer .symbol)
  | «attribute» => exact namedAttribute.map

theorem modifierArgument (form : Option ArgumentSyntax) :
    Limited (Parser.modifierArgument form) (Parser.modifierArgument form) := by
  cases form with
  | none => exact pure
  | some form =>
    apply look
    intro here
    apply ite pure
    apply bindSteady (punct _)
    intro opening
    apply (argumentOf form.kind).bind
    intro argument
    exact bindSteady (punct _) fun _ => pure

theorem reportRepeated (rule earlier : ModifierRule) (span : Span) :
    Limited (Parser.reportRepeated rule earlier span)
      (Parser.reportRepeated rule earlier span) := by
  have other : namesNoLimit
      (if rule.slot = rule.keyword then "`" ++ rule.keyword ++ "` at most once"
        else "a single " ++ rule.slot ++ " modifier (already `" ++ earlier.keyword ++
        "`)") = true := by
    split <;> simp [namesNoLimit]
  exact look fun _ => report (isTooDeep_malformed other)

theorem modifierRun (rules : List ModifierRule) :
    Limited (Parser.modifierRun rules) (Parser.modifierRun rules) := by
  apply loop
  intro modifiers
  apply look
  intro here
  cases rules.find? fun rule => here.atWord rule.keyword with
  | none => exact pure
  | some rule =>
    apply bindSteady skip
    intro _
    apply (modifierArgument rule.argument).bind
    intro argument
    cases ModifierTable.filling? modifiers rule.slot with
    | none => exact pure
    | some earlier => exact look fun _ => (reportRepeated rule earlier.rule _).bind fun _ => pure

end Parser.LimitedWith

/-! ## Grammars -/

namespace Grammar

/-- Whether nothing that a grammar expects reads like a nesting limit. -/
def namesNoLimit : {α : Type} → Grammar R α → Bool
  | _, .lexeme _ what | _, .oneOf _ what => CirText.namesNoLimit what
  | _, .binder what inner => CirText.namesNoLimit what && inner.namesNoLimit
  | _, .seq first second => first.namesNoLimit && second.namesNoLimit
  | _, .choice _ first second => first.namesNoLimit && second.namesNoLimit
  | _, .view _ inner | _, .optional _ inner | _, .separated inner | _, .listed inner
  | _, .listedWithEllipsis inner | _, .bracketed _ inner | _, .repeated _ inner
  | _, .spanned inner | _, .inScope inner | _, .recommended _ _ inner => inner.namesNoLimit
  | _, _ => true

theorem body_namesNoLimit (opcode : Opcode) (form : Form) :
    (body (R := R) opcode form).namesNoLimit = true := by
  unfold body
  split
  all_goals rfl

open CirText.Parser in
/-- The parsers of a grammar go alike up to the limit if the parsers of regions do. -/
theorem parse_limited (start : Cursor) {shallow deep : RegionKind → Bool → Parser R}
    (regions : ∀ kind implicitTerminator,
      Limited (shallow kind implicitTerminator) (deep kind implicitTerminator))
    {α : Type} (grammar : Grammar R α) (other : grammar.namesNoLimit = true) :
    Limited (grammar.parse start shallow) (grammar.parse start deep) := by
  induction grammar with
  | blank => exact .pure
  | punct mark => exact .bindSteady (.punct mark) fun _ => .pure
  | word text => exact .bindSteady (.word text) fun _ => .pure
  | lexeme kind what => exact .bindSteady (.token other) fun _ => .pure
  | oneOf words what => exact .bindSteady (.satisfying other) fun _ => .pure
  | name kind => exact .refer kind
  | definition kind =>
    have named : CirText.namesNoLimit (missingDefinition kind) = true := by
      cases kind <;> rfl
    exact .bindSteady (.token named) fun found => .define kind found
  | type => exact .embed
  | attributeOf form => exact .attributeOf form
  | namedAttribute => exact .namedAttribute
  | trailingAttribute => exact .trailingAttribute
  | seq first second ihFirst ihSecond =>
    obtain ⟨left, right⟩ := Bool.and_eq_true_iff.1 other
    exact (ihFirst left).bind fun a => (ihSecond right).bind fun b => .pure
  | view as inner ih => exact (ih other).map
  | optional present inner ih => exact .look fun _ => .ite (ih other).map .pure
  | choice isFirst first second ihFirst ihSecond =>
    obtain ⟨left, right⟩ := Bool.and_eq_true_iff.1 other
    exact .look fun _ => .ite (ihFirst left).map (ihSecond right).map
  | separated item ih => exact .separated (ih other)
  | listed item ih => exact .listed (ih other)
  | listedWithEllipsis item ih => exact .listedWithEllipsis (ih other)
  | bracketed separator item ih => exact .bracketed separator (ih other)
  | repeated next item ih => exact .repeated next (ih other)
  | modifierRun table => exact (LimitedWith.modifierRun table.rules).map
  | spanned inner ih => exact .look fun _ => (ih other).bind fun _ => .look fun _ => .pure
  | binder what inner ih =>
    obtain ⟨named, inside⟩ := Bool.and_eq_true_iff.1 other
    refine .bindSteady (.token named) fun found => (ih inside).bind fun a => ?_
    exact .bindSteady (.define .value found) fun _ => .pure
  | inScope inner ih => exact (ih other).inScope
  | region kind implicitTerminator => exact regions kind implicitTerminator
  | recommended opcode warning inner ih =>
    apply (ih other).bind
    intro found
    apply LimitedWith.ite _ .pure
    exact .look fun _ => .bindSteady (.warnDeprecated _ _ _) fun _ => .pure

end Grammar

end CirText
