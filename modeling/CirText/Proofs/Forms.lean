import Mathlib
import CirText.Proofs.Grammar.Yields
import CirText.Proofs.Parser.Gives

/-!
# The form of an operation fits what it does

The form of an operation is selected by the tokens after its keyword, before the rest of it is read,
and that of a memory access by its types. Whatever the source text is, every operation of the module
has been recorded in one of its forms, and in the one that goes with its payload.
-/

namespace CirText

variable {R : Type}

/-! ## Forms and what they say -/

/-- The forms that an operation has. -/
def Opcode.forms : Opcode → List Form
  | call => [.direct, .indirect]
  | tryCall => [.exceptionPointer, .successors]
  | load | store => [.singleType, .dualType]
  | const => [.parenthesizedValue, .dialectAttribute, .attributeAlias]
  | cast | ptrStride | objsize | shift | dynCast => [.parenthesized, .bare]
  | copy => [.toForm, .comma]
  | memchr => [.parenthesized, .comma]
  | whileLoop | doWhile => [.labeled, .fluent]
  | _ => [.canonical]

/-- The form of a call that may throw by where it goes on. -/
def TryTarget.form : TryTarget → Form
  | exceptionPointer _ => .exceptionPointer
  | successors .. => .successors

/-- The form of a conversion by how its types are written. -/
def CastTyping.form : CastTyping → Form
  | parenthesized .. => .parenthesized
  | bare _ => .bare

/-- The form of a pointer stride by how its types are written. -/
def StrideTyping.form : StrideTyping → Form
  | parenthesized .. => .parenthesized
  | bare _ => .bare

/-- The form of an operation on one value by how its types are written. -/
def UnaryTyping.form : UnaryTyping → Form
  | parenthesized .. => .parenthesized
  | bare _ => .bare

/-- The form of an operation on two values by how its types are written. -/
def BinaryTyping.form : BinaryTyping → Form
  | parenthesized .. => .parenthesized
  | bare _ => .bare

/-- Whether a form goes with what an instruction consists of and with the attribute at its end. -/
def Instruction.Fits (form : Form) (extra : Option AttributeText) : Instruction → Prop
  | call callee _ _ _ =>
    (form = .direct ↔ callee.kind = .symbol) ∧ (form = .indirect ↔ callee.kind = .value)
  | tryCall _ _ target _ modifiers => form = target.form ∧ modifiers.sideEffect = none
  | load _ _ types | store _ _ _ types => form = types.form
  | const constant _ =>
    (form = .parenthesizedValue ↔ constant.form = .value) ∧
      (form = .dialectAttribute ↔ constant.form = .dialect) ∧
      (form = .attributeAlias ↔ constant.form = .aliasName)
  | cast _ _ typing => form = typing.form
  | ptrStride _ _ typing => form = typing.form
  | objsize _ _ typing => form = typing.form
  | shift _ _ _ typing => form = typing.form
  | dynCast _ _ _ typing _ => form = typing.form
  | copy _ _ result => form = .toForm → result.isSome ∧ extra = none
  | memchr _ _ _ signature => form = .parenthesized ↔ signature = none
  | countBits count _ zeroPoison _ => count ∈ [.clrsb, .ffs, .parity] → zeroPoison = false
  | _ => True

/-- Whether a form goes with the instruction of a body, if the body is one. -/
def Body.Agrees (form : Form) (body : Body R) : Prop :=
  ∀ plain, body.payload = .instruction plain → plain.Fits form body.extra

/-- Whether a form is one that an operation has and goes with its body. -/
structure Body.Fits (form : Form) (body : Body R) : Prop where
  /-- The operation has the form. -/
  listed : form ∈ body.payload.opcode.forms
  /-- The form goes with an instruction. -/
  agrees : body.Agrees form

/-! ## Selecting a form -/

/-- The forms that a rule can select. -/
def Form.Rule.forms : Form.Rule → List Form
  | only => [.canonical]
  | parensOr _ other _ => [.parenthesized, other]
  | callee => [.direct, .indirect]
  | tryCallee => [.exceptionPointer, .successors]
  | dynCast => [.parenthesized, .bare]
  | loop => [.labeled, .fluent]
  | copy => [.toForm, .comma]
  | constant => [.parenthesizedValue, .dialectAttribute, .attributeAlias]

theorem Form.Rule.choose_mem {rule : Form.Rule} {cursor : Cursor} {form : Form}
    (chosen : rule.choose cursor = .ok form) : form ∈ rule.forms := by
  cases rule <;> simp only [choose] at chosen
  all_goals
    repeat' split at chosen
    all_goals cases chosen <;> simp [forms]

/-! ## Bodies -/

/-- Whether the parts of an operation depend on its form or are restricted otherwise. -/
def Opcode.isRestricted : Opcode → Bool
  | call | tryCall | load | store | const | cast | ptrStride | objsize | shift
    | dynCast | copy | memchr
  | clrsb | ffs | parity => true
  | _ => false

theorem Instruction.fits_of_free {plain : Instruction} (free : plain.opcode.isRestricted = false)
    (form : Form) (extra : Option AttributeText) : plain.Fits form extra := by
  cases plain with
  | countBits count =>
    intro restricted
    simp only [List.mem_cons, List.not_mem_nil, or_false] at restricted
    rcases restricted with rfl | rfl | rfl <;> cases free
  | call | tryCall | load | store | const | cast | ptrStride | objsize | shift | dynCast
  | copy | memchr =>
    cases free
  | _ => trivial

/-- The forms of an operation are those that can be selected, unless it is a memory access. -/
theorem Opcode.forms_eq {opcode : Opcode} (noLoad : opcode ≠ .load) (noStore : opcode ≠ .store) :
    opcode.forms = (Form.ruleOf opcode).forms := by
  cases opcode with
  | load => exact absurd rfl noLoad
  | store => exact absurd rfl noStore
  | _ => rfl

/-- Only a memory access is not recorded in the form that has been selected. -/
theorem Body.form_eq {b : Body R} (noLoad : b.payload.opcode ≠ .load)
    (noStore : b.payload.opcode ≠ .store)
    (form : Form) : b.form form = form := by
  unfold Body.form
  split
  · rename_i isLoad
    exact absurd (congrArg Payload.opcode isLoad) noLoad
  · rename_i isStore
    exact absurd (congrArg Payload.opcode isStore) noStore
  · rfl

theorem AccessTypes.form_mem (types : AccessTypes) : types.form ∈ [Form.singleType, .dualType] := by
  cases types with
  | single => exact List.mem_cons_self
  | dual => exact List.mem_cons_of_mem _ List.mem_cons_self

/-- No rule for the modifiers after a call that may throw is about side effects. -/
theorem ModifierTable.sideEffect_afterTryCall {modifiers : List Modifier}
    (run : Run afterTryCall.rules modifiers) :
    (afterTryCall.collect modifiers).sideEffect = none := by
  have absent : get? modifiers "side_effect" = none := by
    apply List.find?_eq_none.2
    intro modifier member named
    have known := (run.fits modifier member).1
    simp only [afterTryCall, List.mem_cons, List.not_mem_nil, or_false] at known
    rcases known with rule | rule <;> rw [rule] at named <;> exact absurd named (by decide)
  change lexeme? modifiers "side_effect" = none
  rw [lexeme?, absent]
  rfl

namespace Grammar

open Form

variable {form : Form} {b : Body R}

theorem agrees_call (selected : form ∈ Rule.callee.forms) (yields : (body .call form).Yields b) :
    b.Agrees form := by
  simp only [Rule.forms, List.mem_cons, List.not_mem_nil, or_false] at selected
  rcases selected with rfl | rfl
  · obtain ⟨⟨callee, args, typing, modifiers⟩, rfl, named, _⟩ := yields
    have isSymbol : callee.kind = .symbol := (yields_spaced _ _).1 named
    rintro _ ⟨⟩
    simp [Instruction.Fits, isSymbol]
  · obtain ⟨⟨callee, args, typing, modifiers⟩, rfl, named, _⟩ := yields
    have isValue : callee.kind = .value := (yields_spaced _ _).1 named
    rintro _ ⟨⟩
    simp [Instruction.Fits, isValue]

theorem agrees_tryCall (selected : form ∈ Rule.tryCallee.forms)
    (yields : (body .tryCall form).Yields b) :
    b.Agrees form := by
  simp only [Rule.forms, List.mem_cons, List.not_mem_nil, or_false] at selected
  rcases selected with rfl | rfl
  · obtain ⟨⟨pointer, callee, args, typing, _⟩, rfl, _, _, _, _, modifiers, run, rfl⟩ := yields
    rintro _ ⟨⟩
    exact ⟨rfl, ModifierTable.sideEffect_afterTryCall run⟩
  · obtain ⟨⟨callee, args, normal, unwind, typing, _⟩, rfl, _, _, _, _, _, modifiers, run, rfl⟩ :=
      yields
    rintro _ ⟨⟩
    exact ⟨rfl, ModifierTable.sideEffect_afterTryCall run⟩

theorem agrees_const (selected : form ∈ Rule.constant.forms)
    (yields : (body .const form).Yields b) :
    b.Agrees form := by
  simp only [Rule.forms, List.mem_cons, List.not_mem_nil, or_false] at selected
  rcases selected with rfl | rfl | rfl
  · obtain ⟨⟨constant, extra, result⟩, rfl, written, _⟩ := yields
    have isValue : constant.form = .value := (yields_parens _ _).1 ((yields_spaced _ _).1 written)
    rintro _ ⟨⟩
    simp [Instruction.Fits, isValue]
  · obtain ⟨⟨constant, extra, result⟩, rfl, written, _⟩ := yields
    have isDialect : constant.form = .dialect := (yields_spaced _ _).1 written
    rintro _ ⟨⟩
    simp [Instruction.Fits, isDialect]
  · obtain ⟨⟨constant, extra, result⟩, rfl, written, _⟩ := yields
    have isAlias : constant.form = .aliasName := (yields_spaced _ _).1 written
    rintro _ ⟨⟩
    simp [Instruction.Fits, isAlias]

/-- Operations that can be written with their types in parentheses, or without. -/
theorem agrees_written {opcode : Opcode}
    (known : opcode ∈ [.cast, .ptrStride, .objsize, .shift, .dynCast])
    (selected : form ∈ [Form.parenthesized, .bare]) (built : (body opcode form).Builds b) :
    b.Agrees form := by
  simp only [List.mem_cons, List.not_mem_nil, or_false] at known selected
  rcases known with rfl | rfl | rfl | rfl | rfl <;> rcases selected with rfl | rfl
  all_goals
    obtain ⟨_, rfl⟩ := built
    rintro _ ⟨⟩
    rfl

theorem agrees_copy (selected : form ∈ Rule.copy.forms) (built : (body .copy form).Builds b) :
    b.Agrees form := by
  simp only [Rule.forms, List.mem_cons, List.not_mem_nil, or_false] at selected
  rcases selected with rfl | rfl
  · obtain ⟨_, rfl⟩ := built
    rintro _ ⟨⟩ _
    exact ⟨rfl, rfl⟩
  · obtain ⟨_, rfl⟩ := built
    rintro _ ⟨⟩ ⟨⟩

theorem agrees_memchr (selected : form ∈ [Form.parenthesized, .comma])
    (built : (body .memchr form).Builds b) : b.Agrees form := by
  simp only [List.mem_cons, List.not_mem_nil, or_false] at selected
  rcases selected with rfl | rfl
  · obtain ⟨_, rfl⟩ := built
    rintro _ ⟨⟩
    exact iff_of_true rfl rfl
  · obtain ⟨_, rfl⟩ := built
    rintro _ ⟨⟩
    exact ⟨by rintro ⟨⟩, by rintro ⟨⟩⟩

/-- The operations on bits that are defined for zero. -/
theorem agrees_countBits {opcode : Opcode} (known : opcode ∈ [.clrsb, .ffs, .parity])
    (built : (body opcode form).Builds b) : b.Agrees form := by
  simp only [List.mem_cons, List.not_mem_nil, or_false] at known
  rcases known with rfl | rfl | rfl
  all_goals
    obtain ⟨_, rfl⟩ := built
    rintro _ ⟨⟩ _
    rfl

theorem agrees_access {opcode : Opcode} (known : opcode ∈ [.load, .store])
    (built : (body opcode form).Builds b) : b.Agrees (b.form form) := by
  simp only [List.mem_cons, List.not_mem_nil, or_false] at known
  rcases known with rfl | rfl
  all_goals
    obtain ⟨_, rfl⟩ := built
    rintro _ ⟨⟩
    rfl

/-- What a body yields in a form that its operation can be read in fits the form that is
recorded. -/
theorem fits_body {opcode : Opcode} (selected : form ∈ (ruleOf opcode).forms)
    (yields : (body opcode form).Yields b) : b.Fits (b.form form) := by
  have built := yields.builds
  have same := (body_describes opcode form).opcode b built
  by_cases access : opcode ∈ [.load, .store]
  · refine ⟨?_, agrees_access access built⟩
    rw [same]
    simp only [List.mem_cons, List.not_mem_nil, or_false] at access
    rcases access with rfl | rfl
    all_goals
      obtain ⟨_, rfl⟩ := built
      exact AccessTypes.form_mem _
  · simp only [List.mem_cons, List.not_mem_nil, or_false, not_or] at access
    rw [Body.form_eq (same ▸ access.1) (same ▸ access.2)]
    refine ⟨?_, ?_⟩
    · rw [same, Opcode.forms_eq access.1 access.2]
      exact selected
    · cases restricted : opcode.isRestricted with
      | false =>
        intro plain isPlain
        refine Instruction.fits_of_free ?_ form _
        rw [← restricted, ← same, isPlain]
        rfl
      | true =>
        cases opcode with
        | call => exact agrees_call selected yields
        | tryCall => exact agrees_tryCall selected yields
        | const => exact agrees_const selected yields
        | copy => exact agrees_copy selected built
        | memchr => exact agrees_memchr selected built
        | cast | ptrStride | objsize | shift | dynCast =>
          exact agrees_written (by decide) selected built
        | clrsb | ffs | parity => exact agrees_countBits (by decide) built
        | load => exact absurd rfl access.1
        | store => exact absurd rfl access.2
        | _ => cases restricted

end Grammar

/-- All bodies that are read fit the form that is recorded. -/
theorem Parser.Gives.fits_bodies :
    Parser.Gives.OfBodies fun form body => body.Fits form := by
  intro opcode form start cursor region traced chosen input state body given
  have yields := ofTraced <| Grammar.parse_yields start
    (fun kind implicitTerminator => (traced kind implicitTerminator).weaken)
    (Grammar.body opcode form)
  exact Grammar.fits_body (Form.Rule.choose_mem chosen) (yields input state body given)

/-- Whatever the source text is, the form that is recorded of an operation is one that it has and
goes with what it does. -/
theorem parse_forms_fit (source : String) (options : Options) (adapters : Adapters) {op : Operation}
    (inModule : op ∈ (parse source options adapters).unit.preorder) :
    Body.Fits op.form ⟨op.payload, op.extra⟩ :=
  parse_everywhere Parser.Gives.fits_bodies source options adapters op inModule

/-- A call of an undefined value among malformed operations is recorded as indirect. -/
theorem parse_forms_fit_indirect :
    ∃ op ∈ (parse "cir.func @f() { cir.cast %p cir.call %g() : () }" {}).unit.preorder,
      op.opcode = .call ∧ op.form = .indirect ∧ Body.Fits .indirect ⟨op.payload, op.extra⟩ := by
  have listed : (fun parsed : Parsed => parsed.unit.preorder[1]?.map fun op => (op.opcode, op.form))
      (parse "cir.func @f() { cir.cast %p cir.call %g() : () }" {}) = some (.call, .indirect) := by
    cbv
  obtain ⟨op, second, both⟩ := Option.map_eq_some_iff.1 listed
  obtain ⟨isCall, indirect⟩ := Prod.mk.inj both
  have inModule := List.mem_of_getElem? second
  have fits := parse_forms_fit _ {} _ inModule
  exact ⟨op, inModule, isCall, indirect, indirect ▸ fits⟩

end CirText
