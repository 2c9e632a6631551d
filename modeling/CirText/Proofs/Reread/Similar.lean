import CirText.Proofs.Reread.Tables
import CirText.Proofs.Grammar.Regions
import Mathlib.Data.Option.Basic
import Mathlib.Data.Sum.Basic

/-!
# What is the same but for its places

Two values of a grammar are the same but for their places if they are built in the same way from the
same names and texts, and what matters about their regions is the same. Such values are equal when
their places are left out, and they have the same pieces.
-/

namespace CirText

variable {R X α β γ : Type}

/-- Lists of values on which a function agrees one by one are mapped to the same list. -/
theorem map_eq_of_forall₂ {r : α → α → Prop} {f : α → β} {items others : List α}
    (same : List.Forall₂ r items others) (agrees : ∀ a b, r a b → f a = f b) :
    items.map f = others.map f := by
  induction same with
  | nil => rfl
  | cons first _ rest => rw [List.map_cons, List.map_cons, agrees _ _ first, rest]

namespace Grammar

/-- Whether two values are the same but for their places, given what matters about regions.
Modifiers are the same if the second are collected from what is written of the first. -/
def Same (f : R → X) : {α : Type} → Grammar R α → α → α → Prop
  | _, .blank => fun _ _ => True
  | _, .punct _ => fun _ _ => True
  | _, .word _ => fun _ _ => True
  | _, .lexeme _ _ => fun a b => a.unplaced = b.unplaced
  | _, .oneOf _ _ => fun a b => a.unplaced = b.unplaced
  | _, .name _ => fun a b => a.unplaced = b.unplaced
  | _, .definition _ => fun a b => a.unplaced = b.unplaced
  | _, .type => fun a b => a.unplaced = b.unplaced
  | _, .attributeOf _ => fun a b => a.unplaced = b.unplaced
  | _, .namedAttribute => fun a b => a.unplaced = b.unplaced
  | _, .trailingAttribute => fun a b =>
    a.map AttributeText.unplaced = b.map AttributeText.unplaced
  | _, .seq first second => fun a b => first.Same f a.1 b.1 ∧ second.Same f a.2 b.2
  | _, .view as inner => fun a b => ∃ x y, inner.Same f x y ∧ a = as.build x ∧ b = as.build y
  | _, .optional _ inner => Option.Rel (inner.Same f)
  | _, .choice _ first second => Sum.LiftRel (first.Same f) (second.Same f)
  | _, .separated item => fun a b => item.Same f a.1 b.1 ∧ List.Forall₂ (item.Same f) a.2 b.2
  | _, .listed item => List.Forall₂ (item.Same f)
  | _, .listedWithEllipsis item => fun a b => List.Forall₂ (item.Same f) a.1 b.1 ∧ a.2 = b.2
  | _, .bracketed _ item => List.Forall₂ (item.Same f)
  | _, .repeated _ item => List.Forall₂ (item.Same f)
  | _, .modifierRun table => fun a b => ∃ written, b = table.collect written ∧
      written.map Modifier.unplaced = (table.list a).map Modifier.unplaced
  | _, .spanned inner => fun a b => inner.Same f a.1 b.1
  | _, .binder _ inner => fun a b => a.1.unplaced = b.1.unplaced ∧ inner.Same f a.2 b.2
  | _, .inScope inner => inner.Same f
  | _, .region _ _ => fun a b => f a = f b
  | _, .recommended _ _ inner => inner.Same f

/-! ## Values without places -/

/-- Whether values of a grammar are equal without places if they are the same but for their places.
The twin is the grammar for other regions, whose views build the values without places. -/
class Erases {β : outParam Type} (f : R → X) (grammar : Grammar R α)
    (twin : outParam (Grammar X β)) (unplaced : outParam (α → β)) : Prop where
  /-- Values that are the same but for their places are equal without places. -/
  eq_of_same : ∀ {a b}, grammar.Same f a b → unplaced a = unplaced b

namespace Erases

variable {f : R → X} {α' β' : Type}

/-- A view erases places as what it is built from does, if it builds values without places from
values without places. -/
theorem ofView {as : View α γ} {inner : Grammar R α} {other : View β β'} {twin : Grammar X β}
    {e : α → β} {unplaced : γ → β'} [erases : Erases f inner twin e]
    (build : ∀ x, unplaced (as.build x) = other.build (e x)) :
    Erases f (view as inner) (view other twin) unplaced where
  eq_of_same := by
    rintro _ _ ⟨x, y, same, rfl, rfl⟩
    rw [build, build, erases.eq_of_same same]

theorem forall₂ {item : Grammar R α} {twin : Grammar X β} {e : α → β}
    [erases : Erases f item twin e] {a b : List α} (same : List.Forall₂ (item.Same f) a b) :
    a.map e = b.map e :=
  map_eq_of_forall₂ same fun _ _ same => erases.eq_of_same same

/-! ### Constructors -/

section

variable {first : Grammar R α} {firstTwin : Grammar X α'} {e₁ : α → α'}
  [erasesFirst : Erases f first firstTwin e₁]
  {second : Grammar R β} {secondTwin : Grammar X β'} {e₂ : β → β'}
  [erasesSecond : Erases f second secondTwin e₂]

instance : Erases f (blank (R := R)) blank id := ⟨fun _ => rfl⟩

instance (mark : Punct) : Erases f (Grammar.punct (R := R) mark) (Grammar.punct mark) id :=
  ⟨fun _ => rfl⟩

instance (text : String) : Erases f (Grammar.word (R := R) text) (Grammar.word text) id :=
  ⟨fun _ => rfl⟩

instance (kind : TokenKind) (what : String) :
    Erases f (lexeme (R := R) kind what) (lexeme kind what) Lexeme.unplaced :=
  ⟨fun same => same⟩

instance (words : List String) (what : String) :
    Erases f (oneOf (R := R) words what) (oneOf words what) Lexeme.unplaced :=
  ⟨fun same => same⟩

instance (kind : NameKind) : Erases f (name (R := R) kind) (name kind) Reference.unplaced :=
  ⟨fun same => same⟩

instance (kind : NameKind) :
    Erases f (definition (R := R) kind) (definition kind) Definition.unplaced :=
  ⟨fun same => same⟩

instance : Erases f (type (R := R)) type TypeText.unplaced := ⟨fun same => same⟩

instance (form : AttributeForm) :
    Erases f (attributeOf (R := R) form) (attributeOf form) AttributeText.unplaced :=
  ⟨fun same => same⟩

instance : Erases f (namedAttribute (R := R)) namedAttribute AttributeText.unplaced :=
  ⟨fun same => same⟩

instance : Erases f (trailingAttribute (R := R)) trailingAttribute
    (Option.map AttributeText.unplaced) :=
  ⟨fun same => same⟩

instance : Erases f (seq first second) (seq firstTwin secondTwin) (Prod.map e₁ e₂) :=
  ⟨fun same => Prod.ext (erasesFirst.eq_of_same same.1) (erasesSecond.eq_of_same same.2)⟩

instance (present : Guard) :
    Erases f (optional present first) (optional present firstTwin) (Option.map e₁) where
  eq_of_same := by
    rintro _ _ (same | _)
    · exact congrArg some (erasesFirst.eq_of_same same)
    · rfl

instance (isFirst : Guard) :
    Erases f (choice isFirst first second) (choice isFirst firstTwin secondTwin)
      (Sum.map e₁ e₂) where
  eq_of_same := by
    rintro _ _ (same | same)
    · exact congrArg Sum.inl (erasesFirst.eq_of_same same)
    · exact congrArg Sum.inr (erasesSecond.eq_of_same same)

instance : Erases f (separated first) (separated firstTwin) (Prod.map e₁ (List.map e₁)) :=
  ⟨fun same => Prod.ext (erasesFirst.eq_of_same same.1) (forall₂ same.2)⟩

instance : Erases f (listed first) (listed firstTwin) (List.map e₁) :=
  ⟨forall₂⟩

instance : Erases f (listedWithEllipsis first) (listedWithEllipsis firstTwin)
    (Prod.map (List.map e₁) id) :=
  ⟨fun same => Prod.ext (forall₂ same.1) same.2⟩

instance (separator : Separator) :
    Erases f (bracketed separator first) (bracketed separator firstTwin) (List.map e₁) :=
  ⟨forall₂⟩

instance (next : Guard) : Erases f (repeated next first) (repeated next firstTwin) (List.map e₁) :=
  ⟨forall₂⟩

instance : Erases f (spanned first) (spanned firstTwin) (Prod.map e₁ fun _ => Span.nowhere) :=
  ⟨fun same => Prod.ext (erasesFirst.eq_of_same same) rfl⟩

instance (what : String) : Erases f (binder what first) (binder what firstTwin)
    (Prod.map Definition.unplaced e₁) :=
  ⟨fun same => Prod.ext same.1 (erasesFirst.eq_of_same same.2)⟩

instance : Erases f (inScope first) (inScope firstTwin) e₁ :=
  ⟨fun same => erasesFirst.eq_of_same same⟩

instance (kind : RegionKind) (implicitTerminator : Bool) :
    Erases f (region kind implicitTerminator) (region kind implicitTerminator) f :=
  ⟨fun same => same⟩

instance {inner : Grammar R (Option α)} {twin : Grammar X (Option α')} {e : Option α → Option α'}
    [erases : Erases f inner twin e] (opcode : Opcode) (warning : String) :
    Erases f (recommended opcode warning inner) (recommended opcode warning twin) e :=
  ⟨fun same => erases.eq_of_same same⟩

/-! ### Modifiers -/

theorem ofStable {S : Type} {table : ModifierTable S} {unplaced : S → S}
    (stable : table.Stable unplaced) :
    Erases f (modifierRun table) (modifierRun table) unplaced where
  eq_of_same := by
    rintro _ _ ⟨written, rfl, same⟩
    exact (stable.unplaced_collect same).symm

instance : Erases f (modifierRun (R := R) .beforeFunctionName) (modifierRun .beforeFunctionName)
    id :=
  ofStable ModifierTable.beforeFunctionName_stable

instance : Erases f (modifierRun (R := R) .afterFunctionSignature)
    (modifierRun .afterFunctionSignature) FunctionTraits.unplaced :=
  ofStable ModifierTable.afterFunctionSignature_stable

instance : Erases f (modifierRun (R := R) .afterCall) (modifierRun .afterCall)
    CallModifiers.unplaced :=
  ofStable ModifierTable.afterCall_stable

instance : Erases f (modifierRun (R := R) .afterTryCall) (modifierRun .afterTryCall)
    CallModifiers.unplaced :=
  ofStable ModifierTable.afterTryCall_stable

instance : Erases f (modifierRun (R := R) .ofMemoryAccess) (modifierRun .ofMemoryAccess)
    AccessFlags.unplaced :=
  ofStable ModifierTable.ofMemoryAccess_stable

instance : Erases f (modifierRun (R := R) .beforeGlobalName) (modifierRun .beforeGlobalName)
    GlobalModifiers.unplaced :=
  ofStable ModifierTable.beforeGlobalName_stable

/-! ### Sequences -/

instance {fixed : Grammar R Unit} {fixedTwin : Grammar X Unit} {e : Unit → Unit}
    [Erases f fixed fixedTwin e] : Erases f (before fixed first) (before fixedTwin firstTwin) e₁ :=
  ofView fun _ => rfl

instance {fixed : Grammar R Unit} {fixedTwin : Grammar X Unit} {e : Unit → Unit}
    [Erases f fixed fixedTwin e] :
    Erases f (followedBy first fixed) (followedBy firstTwin fixedTwin) e₁ :=
  ofView fun _ => rfl

instance (mark : Punct) : Erases f (Grammar.mark mark first) (Grammar.mark mark firstTwin) e₁ :=
  inferInstanceAs (Erases f (before _ first) (before _ firstTwin) e₁)

instance : Erases f (spaced first) (spaced firstTwin) e₁ :=
  inferInstanceAs (Erases f (before _ first) (before _ firstTwin) e₁)

instance : Erases f (comma first) (comma firstTwin) e₁ :=
  inferInstanceAs (Erases f (Grammar.mark _ (spaced first)) (Grammar.mark _ (spaced firstTwin)) e₁)

instance : Erases f (colon first) (colon firstTwin) e₁ :=
  inferInstanceAs (Erases f (spaced (Grammar.mark _ (spaced first)))
    (spaced (Grammar.mark _ (spaced firstTwin))) e₁)

instance (text : String) : Erases f (spacedWord text first) (spacedWord text firstTwin) e₁ :=
  inferInstanceAs (Erases f (spaced (before _ first)) (spaced (before _ firstTwin)) e₁)

instance : Erases f (parens first) (parens firstTwin) e₁ :=
  inferInstanceAs (Erases f (Grammar.mark _ (followedBy first _))
    (Grammar.mark _ (followedBy firstTwin _)) e₁)

instance : Erases f (brackets first) (brackets firstTwin) e₁ :=
  inferInstanceAs (Erases f (Grammar.mark _ (followedBy first _))
    (Grammar.mark _ (followedBy firstTwin _)) e₁)

instance : Erases f (angles first) (angles firstTwin) e₁ :=
  inferInstanceAs (Erases f (Grammar.mark _ (followedBy first _))
    (Grammar.mark _ (followedBy firstTwin _)) e₁)

instance : Erases f (list first) (list firstTwin) (List.map e₁) :=
  ofView fun _ => rfl

end

/-! ### Names, literals and types -/

instance : Erases f (value (R := R)) value Reference.unplaced := ⟨fun same => same⟩

instance : Erases f (label (R := R)) label Reference.unplaced := ⟨fun same => same⟩

instance : Erases f («symbol» (R := R)) «symbol» Reference.unplaced := ⟨fun same => same⟩

instance (what : String) : Erases f (identifier (R := R) what) (identifier what) Lexeme.unplaced :=
  ⟨fun same => same⟩

instance : Erases f (integer (R := R)) integer Lexeme.unplaced := ⟨fun same => same⟩

instance : Erases f (string (R := R)) string Lexeme.unplaced := ⟨fun same => same⟩

instance {inner : Grammar R Unit} {twin : Grammar X Unit} {e : Unit → Unit} [Erases f inner twin e]
    (guard : Guard) : Erases f (flag guard inner) (flag guard twin) id :=
  ofView (by rintro (_ | _) <;> rfl)

instance (text : String) : Erases f (optionalWord (R := R) text) (optionalWord text) id :=
  inferInstanceAs (Erases f (flag _ (spaced (Grammar.word text))) _ id)

instance : Erases f (typeGroup (R := R)) typeGroup TypeGroup.unplaced :=
  ofView (by rintro (_ | _) <;> rfl)

instance : Erases f (resultTypes (R := R)) resultTypes TypeGroup.unplaced :=
  inferInstanceAs (Erases f (spaced (Grammar.mark _ (spaced typeGroup))) _ _)

instance : Erases f ( annotation (R := R)) annotation (List.map TypeText.unplaced) :=
  inferInstanceAs (Erases f (colon (list type)) _ _)

instance : Erases f ( optionalAnnotation (R := R)) optionalAnnotation
    (Option.map (List.map TypeText.unplaced)) :=
  inferInstanceAs (Erases f (optional _ annotation) _ _)

end Erases

end Grammar

end CirText
