import CirText.Grammar.Operation
import CirText.Proofs.Reread.Similar

/-!
# Bodies without places

What follows the keyword of an operation is built from its parts. Without their places the same
parts build the same without places, for every operation and form.
-/

namespace CirText.Grammar

variable {R X : Type} {f : R → X}

namespace Erases

variable {α β : Type}

theorem ofSpaced {inner : Grammar R α} {twin : Grammar X β} {e : α → β}
    (erases : Erases f inner twin e) : Erases f (spaced inner) (spaced twin) e :=
  inferInstance

/-! ## Types, values and regions -/

instance : Erases f (signature (R := R)) signature Signature.unplaced :=
  ofSpaced (ofView fun _ => rfl)

instance : Erases f (optionalSignature (R := R)) optionalSignature
    (Option.map Signature.unplaced) :=
  inferInstanceAs (Erases f (optional _ signature) _ _)

instance : Erases f (typedValue (R := R)) typedValue TypedValue.unplaced :=
  ofView fun _ => rfl

instance : Erases f (operands (R := R)) operands Operands.unplaced :=
  ofView fun _ => rfl

instance : Erases f (arguments (R := R)) arguments (List.map Reference.unplaced) :=
  inferInstanceAs (Erases f (parens (listed value)) _ _)

instance : Erases f (successor (R := R)) successor Successor.unplaced :=
  ofView fun _ => rfl

instance : Erases f (optionalAnnotations (R := R)) optionalAnnotations
    (Option.map (List.map AttributeText.unplaced)) :=
  inferInstanceAs (Erases f (optional _ (spaced (bracketed .comma (attributeOf .value)))) _ _)

instance (kind : RegionKind) (implicitTerminator : Bool) :
    Erases f (nested kind implicitTerminator) (nested kind implicitTerminator) f :=
  inferInstanceAs (Erases f (spaced (inScope (region kind implicitTerminator))) _ _)

instance (text : String) (kind : RegionKind) :
    Erases f (colonRegion text kind) (colonRegion text kind) f :=
  inferInstanceAs
    (Erases f (before (word text) (spaced (Grammar.mark .colon (nested kind false)))) _ _)

instance (text : String) (kind : RegionKind) (implicitTerminator : Bool) :
    Erases f (wordRegion text kind implicitTerminator)
      (wordRegion text kind implicitTerminator) f :=
  inferInstanceAs (Erases f (spacedWord text (nested kind implicitTerminator)) _ _)

instance (text : String) (kind : RegionKind) (implicitTerminator : Bool) :
    Erases f (optionalRegion text kind implicitTerminator)
      (optionalRegion text kind implicitTerminator) (Option.map f) :=
  inferInstanceAs (Erases f (optional _ (wordRegion text kind implicitTerminator)) _ _)

/-! ## Blocks -/

instance : Erases f (blockArgument (R := R)) blockArgument BlockArgument.unplaced :=
  ofView fun _ => rfl

instance : Erases f (blockArguments (R := R)) blockArguments (List.map BlockArgument.unplaced) :=
  ofView (by rintro (_ | _) <;> rfl)

instance : Erases f (blockHeader (R := R)) blockHeader
    (Prod.map Definition.unplaced (List.map BlockArgument.unplaced)) :=
  inferInstanceAs
    (Erases f (followedBy (seq (definition .label) blockArguments) (punct .colon)) _ _)

/-! ## Calls -/

instance {callee : Grammar R Reference} {twin : Grammar X Reference}
    [Erases f callee twin Reference.unplaced] :
    Erases f (callOf callee) (callOf twin) (Body.unplaced f) :=
  ofView fun _ => rfl

instance : Erases f tryCallWithPointer tryCallWithPointer (Body.unplaced f) :=
  ofView fun _ => rfl

instance : Erases f tryCallWithSuccessors tryCallWithSuccessors (Body.unplaced f) :=
  ofView fun _ => rfl

instance : Erases f memcpy memcpy (Body.unplaced f) :=
  ofView fun _ => rfl

instance : Erases f (memchrOperands (R := R)) memchrOperands
    (Prod.map Reference.unplaced (Prod.map Reference.unplaced Reference.unplaced)) :=
  inferInstanceAs (Erases f (seq value (seq (comma value) (comma value))) _ _)

instance : Erases f memchrInParens memchrInParens (Body.unplaced f) :=
  ofView fun _ => rfl

instance : Erases f memchr memchr (Body.unplaced f) :=
  ofView fun _ => rfl

instance : Erases f fabs fabs (Body.unplaced f) :=
  ofView fun _ => rfl

/-! ## Computing values -/

instance {constant : Grammar R AttributeText} {twin : Grammar X AttributeText}
    [Erases f constant twin AttributeText.unplaced] :
    Erases f (constOf constant) (constOf twin) (Body.unplaced f) :=
  ofView fun _ => rfl

instance : Erases f castInParens castInParens (Body.unplaced f) :=
  ofView fun _ => rfl

instance : Erases f castBare castBare (Body.unplaced f) :=
  ofView fun _ => rfl

instance : Erases f (dynCastKind (R := R)) dynCastKind (Prod.map Lexeme.unplaced id) :=
  inferInstanceAs (Erases f (seq (oneOf _ _) (optionalWord _)) _ _)

instance : Erases f dynCastInParens dynCastInParens (Body.unplaced f) :=
  ofView fun _ => rfl

instance : Erases f dynCastBare dynCastBare (Body.unplaced f) :=
  ofView fun _ => rfl

instance : Erases f binop binop (Body.unplaced f) :=
  ofView fun _ => rfl

instance : Erases f cmp cmp (Body.unplaced f) :=
  ofView fun _ => rfl

instance : Erases f unary unary (Body.unplaced f) :=
  ofView fun _ => rfl

instance : Erases f select select (Body.unplaced f) :=
  ofView fun _ => rfl

instance : Erases f shiftInParens shiftInParens (Body.unplaced f) :=
  ofView fun _ => rfl

instance : Erases f shiftBare shiftBare (Body.unplaced f) :=
  ofView fun _ => rfl

instance : Erases f objsizeInParens objsizeInParens (Body.unplaced f) :=
  ofView fun _ => rfl

instance : Erases f objsizeBare objsizeBare (Body.unplaced f) :=
  ofView fun _ => rfl

instance (count : BitCount) : Erases f (countBits count) (countBits count) (Body.unplaced f) :=
  ofView fun _ => rfl

instance (count : BitCount) :
    Erases f (countBitsOrPoison count) (countBitsOrPoison count) (Body.unplaced f) :=
  ofView fun _ => rfl

/-! ## Memory -/

instance : Erases f (slotName (R := R)) slotName SlotName.unplaced :=
  ofView fun _ => rfl

instance : Erases f alloca alloca (Body.unplaced f) :=
  ofView fun _ => rfl

instance : Erases f stackSave stackSave (Body.unplaced f) :=
  ofView fun _ => rfl

instance : Erases f stackRestore stackRestore (Body.unplaced f) :=
  ofView fun _ => rfl

instance : Erases f (accessTypes (R := R)) accessTypes AccessTypes.unplaced :=
  ofView (by rintro ⟨_, _ | _⟩ <;> rfl)

instance : Erases f load load (Body.unplaced f) :=
  ofView fun _ => rfl

instance : Erases f store store (Body.unplaced f) :=
  ofView fun _ => rfl

instance : Erases f copyTo copyTo (Body.unplaced f) :=
  ofView fun _ => rfl

instance : Erases f copyComma copyComma (Body.unplaced f) :=
  ofView fun _ => rfl

instance : Erases f getGlobal getGlobal (Body.unplaced f) :=
  ofView fun _ => rfl

instance : Erases f structElementAddr structElementAddr (Body.unplaced f) :=
  ofView fun _ => rfl

instance : Erases f getMember getMember (Body.unplaced f) :=
  ofView fun _ => rfl

instance : Erases f getRuntimeMember getRuntimeMember (Body.unplaced f) :=
  ofView fun _ => rfl

instance : Erases f strideInParens strideInParens (Body.unplaced f) :=
  ofView fun _ => rfl

instance : Erases f strideBare strideBare (Body.unplaced f) :=
  ofView fun _ => rfl

instance : Erases f blockAddress blockAddress (Body.unplaced f) :=
  ofView fun _ => rfl

/-! ## Transfer of control -/

instance : Erases f (handedOver (R := R)) handedOver
    (Prod.map (Option.map AttributeText.unplaced) (Option.map Operands.unplaced)) :=
  inferInstanceAs (Erases f (seq trailingAttribute (optional _ (spaced operands))) _ _)

instance : Erases f ret ret (Body.unplaced f) :=
  ofView fun _ => rfl

instance : Erases f yield yield (Body.unplaced f) :=
  ofView fun _ => rfl

instance : Erases f condition condition (Body.unplaced f) :=
  ofView fun _ => rfl

instance (terminator : BareTerminator) :
    Erases f (bare terminator) (bare terminator) (Body.unplaced f) :=
  ofView fun _ => rfl

instance : Erases f br br (Body.unplaced f) :=
  ofView fun _ => rfl

instance : Erases f brcond brcond (Body.unplaced f) :=
  ofView fun _ => rfl

instance : Erases f indirectBr indirectBr (Body.unplaced f) :=
  ofView fun _ => rfl

instance : Erases f labelMark labelMark (Body.unplaced f) :=
  ofView fun _ => rfl

instance : Erases f (exception (R := R)) exception (Option.map Reference.unplaced) :=
  inferInstanceAs (Erases f (optional _ (spaced value)) _ _)

instance : Erases f throw throw (Body.unplaced f) :=
  ofView fun _ => rfl

instance : Erases f catchParam catchParam (Body.unplaced f) :=
  ofView fun _ => rfl

/-! ## Structured control flow -/

instance : Erases f ifElse ifElse (Body.unplaced f) :=
  ofView fun _ => rfl

instance : Erases f ternary ternary (Body.unplaced f) :=
  ofView fun _ => rfl

instance : Erases f scope scope (Body.unplaced f) :=
  ofView fun _ => rfl

instance : Erases f switch switch (Body.unplaced f) :=
  ofView fun _ => rfl

instance : Erases f caseArm caseArm (Body.unplaced f) :=
  ofView fun _ => rfl

instance : Erases f loop loop (Body.unplaced f) :=
  ofView fun _ => rfl

instance : Erases f forLoop forLoop (Body.unplaced f) :=
  ofView fun _ => rfl

instance {cond body : Grammar R R} {condTwin bodyTwin : Grammar X X} [Erases f cond condTwin f]
    [Erases f body bodyTwin f] :
    Erases f (whileOf cond body) (whileOf condTwin bodyTwin) (Body.unplaced f) :=
  ofView fun _ => rfl

instance {body cond : Grammar R R} {bodyTwin condTwin : Grammar X X} [Erases f body bodyTwin f]
    [Erases f cond condTwin f] :
    Erases f (doWhileOf body cond) (doWhileOf bodyTwin condTwin) (Body.unplaced f) :=
  ofView fun _ => rfl

instance : Erases f whileLabeled whileLabeled (Body.unplaced f) :=
  inferInstanceAs (Erases f (whileOf _ _) _ _)

instance : Erases f whileFluent whileFluent (Body.unplaced f) :=
  inferInstanceAs (Erases f (whileOf _ _) _ _)

instance : Erases f doWhileLabeled doWhileLabeled (Body.unplaced f) :=
  inferInstanceAs (Erases f (doWhileOf _ _) _ _)

instance : Erases f doWhileFluent doWhileFluent (Body.unplaced f) :=
  inferInstanceAs (Erases f (doWhileOf _ _) _ _)

instance : Erases f await await (Body.unplaced f) :=
  ofView fun _ => rfl

instance : Erases f handler handler (Handler.unplaced f) :=
  ofView fun _ => rfl

instance : Erases f tryCatch tryCatch (Body.unplaced f) :=
  ofView fun _ => rfl

/-! ## Functions and globals -/

instance : Erases f (parameterAttributes (R := R)) parameterAttributes
    (Option.map AttributeText.unplaced) :=
  inferInstanceAs (Erases f (optional _ (spaced (attributeOf .dictionary))) _ _)

instance : Erases f (parameter (R := R)) parameter Parameter.unplaced :=
  ofView (by rintro (_ | _) <;> rfl)

instance : Erases f func func (Body.unplaced f) :=
  ofView fun _ => rfl

instance : Erases f initializer initializer (Initializer.unplaced f) :=
  ofView (by rintro (_ | _ | _) <;> rfl)

instance : Erases f global global (Body.unplaced f) :=
  ofView fun _ => rfl

end Erases

/-- Bodies that are the same but for their places are equal without places. -/
theorem unplaced_of_same {opcode : Opcode} {form : Form} {a b : Body R}
    (same : (body opcode form).Same f a b) : a.unplaced f = b.unplaced f := by
  unfold body at same
  split at same <;> exact Erases.eq_of_same same

end CirText.Grammar
