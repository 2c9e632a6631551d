import CirText.Proofs.Grammar.Yields
import CirText.Proofs.Names
import CirText.Proofs.Parser.Gives
import CirText.Proofs.Reread.Units
import CirText.Proofs.Resolution
import CirText.Proofs.Scope.Clashes
import CirText.Proofs.Soundness

/-!
# The symbols of a module

A function or a global enters its name into the module, in whichever region it stands. In a source
unit without errors the symbols of the module are the names of all functions and globals in it, one
for each, and the items of the module are functions and globals. Where none stands in a region, the
symbols are the names of the items.
-/

namespace CirText

variable {R : Type}

/-! ## Names that are declared -/

/-- The symbol that an operation declares. -/
def Payload.declared? : Payload R → Option Definition
  | .compound (.func function) => some function.name
  | .compound (.global decl) => some decl.name
  | _ => none

/-- The symbol that an operation declares, if it is a function or a global. -/
def Operation.declared? (op : Operation) : Option Definition :=
  op.payload.declared?

/-- Whether a definition is that of a symbol. -/
def Definition.isSymbol (definition : Definition) : Bool :=
  definition.kind == .symbol

/-- The operations that declare a symbol are functions and globals. -/
theorem Payload.isSome_declared? (payload : Payload R) :
    payload.declared?.isSome = payload.opcode.isDeclaration := by
  cases payload with
  | compound structured => cases structured <;> rfl
  | instruction plain =>
    cases plain with
    | bare terminator => cases terminator <;> rfl
    | countBits count => cases count <;> rfl
    | _ => rfl

/-- A parameter that is named defines a value. -/
theorem Grammar.not_isSymbol_of_parameter {parameter : Parameter}
    (yields : (Grammar.parameter (R := R)).Yields parameter) :
    ∀ name ∈ parameter.name, name.isSymbol = false := by
  obtain ⟨written | written, rfl, yields⟩ := yields
  · rintro _ ⟨⟩
    have isValue : written.1.kind = .value := yields.1
    rw [Definition.isSymbol, isValue]
    rfl
  · rintro _ ⟨⟩

/-- Of the names that the body of an operation defines, the declared one is the only symbol. -/
theorem Grammar.declared_of_yields {opcode : Opcode} {form : Form} {b : Body R}
    (yields : (body opcode form).Yields b) :
    b.payload.definitions.filter Definition.isSymbol = b.payload.declared?.toList := by
  have same := (body_describes opcode form).opcode b yields.builds
  obtain ⟨payload, extra⟩ := b
  cases payload with
  | instruction plain => rfl
  | compound structured =>
    cases structured with
    | func function =>
      obtain rfl : Opcode.func = opcode := same
      obtain ⟨⟨_, name, ⟨parameters, _⟩, _⟩, ⟨⟩, _, named, inside, _⟩ := yields
      have isSymbol : name.isSymbol = true := beq_iff_eq.2 ((yields_spaced _ _).1 named)
      have noOther : (parameters.filterMap (·.name)).filter Definition.isSymbol = [] := by
        refine List.filter_eq_nil_iff.2 fun other member => ?_
        obtain ⟨parameter, isParameter, given⟩ := List.mem_filterMap.1 member
        have yields : (Grammar.parameter (R := R)).Yields parameter :=
          (yields_parens _ _).1 inside parameter isParameter
        exact Bool.eq_false_iff.1 (not_isSymbol_of_parameter yields other given)
      change (name :: parameters.filterMap (·.name)).filter Definition.isSymbol = [name]
      rw [List.filter_cons_of_pos isSymbol, noOther]
    | global decl =>
      obtain rfl : Opcode.global = opcode := same
      obtain ⟨⟨_, _, name, _⟩, ⟨⟩, _, _, named, _⟩ := yields
      have isSymbol : name.isSymbol = true := beq_iff_eq.2 ((yields_spaced _ _).1 named)
      exact List.filter_cons_of_pos isSymbol
    | _ => rfl

theorem Parser.Gives.declares_bodies :
    Parser.Gives.OfBodies fun _ body =>
      body.payload.definitions.filter Definition.isSymbol = body.payload.declared?.toList := by
  intro opcode form start cursor region traced _ input state body given
  have yields := ofTraced <| Grammar.parse_yields start
    (fun kind implicitTerminator => (traced kind implicitTerminator).weaken)
    (Grammar.body opcode form)
  exact Grammar.declared_of_yields (yields input state body given)

/-! ## Symbols in tables -/

namespace SymbolTable

variable {table : SymbolTable}

/-- The entries that are symbols are those of the module. -/
theorem WellFormed.filter_entries (wf : table.WellFormed) :
    table.entries.filter Definition.isSymbol = table.symbols := by
  have symbols : table.symbols.filter Definition.isSymbol = table.symbols :=
    List.filter_eq_self.2 fun definition member => beq_iff_eq.2 (wf.symbols definition member).1
  have others : (table.scopes.toList.flatMap Scope.entries).filter Definition.isSymbol = [] := by
    refine List.filter_eq_nil_iff.2 fun definition member isSymbol => ?_
    obtain ⟨scope, isScope, inScope⟩ := List.mem_flatMap.1 member
    have inTable : scope ∈ table.scopes.toList.drop 0 := isScope
    obtain ⟨id, _, _, rfl⟩ := mem_drop_scopes_iff.1 inTable
    have isSymbol : definition.kind = .symbol := beq_iff_eq.1 isSymbol
    rcases List.mem_append.1 inScope with isValue | isLabel
    · exact absurd ((wf.values id definition isValue).1.symm.trans isSymbol) (by decide)
    · exact absurd ((wf.labels id definition isLabel).1.symm.trans isSymbol) (by decide)
  rw [entries, List.filter_append, symbols, others, List.append_nil]

/-- An entry of a scope other than that of the module is no symbol. -/
theorem WellFormed.not_isSymbol (wf : table.WellFormed) {definition : Definition}
    (entry : definition ∈ table.entries) (inside : definition.scope ≠ .root) :
    definition.isSymbol = false := by
  refine Bool.eq_false_iff.2 fun isSymbol => inside ?_
  have member : definition ∈ table.entries.filter Definition.isSymbol :=
    List.mem_filter.2 ⟨entry, isSymbol⟩
  rw [wf.filter_entries] at member
  exact (wf.symbols definition member).2

end SymbolTable

/-- No step of a tracker gives two symbols one name. -/
theorem Tracker.Course.symbols_nodup {first last : Tracker} {uses : List Reference}
    {verdicts : List Unresolved} (steps : Course first uses verdicts last)
    (start : (first.table.symbols.map (·.name)).Nodup) :
    (last.table.symbols.map (·.name)).Nodup := by
  induction steps with
  | refl => exact start
  | push _ ih => exact ih
  | pop _ ih =>
    rw [table_pop]
    exact ih
  | @define _ _ tracker _ kind name span ih =>
    unfold Tracker.define
    split
    · exact ih
    · rename_i free
      rw [SymbolTable.symbols_insert]
      split
      · rename_i isSymbol
        obtain rfl : kind = .symbol := isSymbol
        refine List.nodup_cons.2 ⟨fun taken => ?_, ih⟩
        obtain ⟨entry, member, same⟩ := List.mem_map.1 taken
        exact Option.isSome_iff_ne_none.1
          (SymbolTable.findName_isSome_iff.2 ⟨entry, member, same⟩) free
      · exact ih
  | refer _ kind name span ih =>
    rw [table_refer]
    exact ih

/-! ## Items -/

namespace Parser

variable {region : RegionKind → Bool → Meaning (Region Operation)} {source : List Char}
  {before after : Stage}

/-- An operation that starts with its keyword has no results. -/
theorem OperationReads.results_eq_nil {op : Operation}
    (reads : OperationReads region source before op after)
    (isKeyword : before.cursor.peek.kind = .keyword) : op.results = [] := by
  obtain ⟨names, middle, named, _, last, _, results, defined, rfl⟩ := reads
  have noValue : before.cursor.atKind .value = false := by
    rw [Cursor.atKind, isKeyword]
    rfl
  rw [ResultNamesRead, noValue, if_neg Bool.false_ne_true] at named
  obtain ⟨rfl, _⟩ := named
  exact defined.1

/-- The items of a source unit are functions and globals without results. -/
theorem ItemsRead.declare {braced : Bool} {ops : List Operation}
    (reads : ItemsRead region braced source before ops after) :
    ∀ op ∈ ops, op.results = [] ∧ op.opcode.isDeclaration = true := by
  induction reads with
  | nil => simp
  | cons _ starts first _ ih =>
    refine List.forall_mem_cons.2 ⟨?_, ih⟩
    have isKeyword := beq_iff_eq.1 (Bool.and_eq_true_iff.1 starts).1
    exact ⟨first.results_eq_nil isKeyword, (first.startsDeclaration isKeyword).symm.trans starts⟩

theorem SourceUnitReads.declare {found : Option ModuleHeader × List Operation}
    (reads : SourceUnitReads region source before found after) :
    ∀ op ∈ found.2, op.results = [] ∧ op.opcode.isDeclaration = true := by
  unfold SourceUnitReads at reads
  split at reads
  · obtain ⟨_, _, _, _, _, _, ops, last, reads, _, _, _, rfl⟩ := reads
    exact reads.declare
  · obtain ⟨ops, reads, rfl⟩ := reads
    exact reads.declare

end Parser

/-! ## Source units -/

theorem parse_wellFormed (source : String) (options : Options) :
    (parse source options).unit.symbols.WellFormed := by
  obtain ⟨_, _, accounted⟩ := run_sound source options .structural
  rw [parse_symbols]
  exact accounted.table

/-- No region has the scope of the module. -/
theorem parse_scope_ne_root (source : String) (options : Options) {op : Operation}
    (inModule : op ∈ (parse source options).unit.preorder) {region : Region Operation}
    (inOp : region ∈ op.regions) : region.scope ≠ .root := by
  obtain ⟨around, encloses⟩ := Module.exists_encloses_iff.2 inModule
  have sound := (Operation.Throughout.of_encloses encloses (parse_sound source options).items).here
  intro isRoot
  have parent := sound.names.regions region inOp
  rw [isRoot, (parse_wellFormed source options).parent_root] at parent
  cases parent

/-- The symbols that the operations of a module declare. -/
def Module.declarations (unit : Module) : List Definition :=
  unit.preorder.filterMap Operation.declared?

/-- The symbols among the names that an operation defines are the one that it declares. -/
theorem parse_declares {source : String} {options : Options}
    (clean : (parse source options).hasErrors = false) {op : Operation}
    (inModule : op ∈ (parse source options).unit.preorder) :
    op.definitions.filter Definition.isSymbol = op.declared?.toList := by
  have wf := parse_wellFormed source options
  have entry : ∀ definition ∈ op.definitions,
      definition ∈ (parse source options).unit.symbols.entries := fun definition member =>
    (parse_definitions_perm clean).mem_iff.1 (List.mem_flatMap.2 ⟨op, inModule, member⟩)
  have results : op.results.filter Definition.isSymbol = [] := by
    obtain ⟨around, encloses⟩ := Module.exists_encloses_iff.2 inModule
    cases encloses with
    | top item =>
      obtain ⟨_, _, reads, _⟩ := parse_reads clean
      rw [(reads.declare op item).1]
      rfl
    | @inside around outer _ region enclosed inOuter inRegion =>
      have sound := (Operation.Throughout.of_encloses (.inside enclosed inOuter inRegion)
        (parse_sound source options).items).here
      have notRoot :=
        parse_scope_ne_root source options (Module.exists_encloses_iff.1 ⟨around, enclosed⟩)
        inOuter
      refine List.filter_eq_nil_iff.2 fun result member => Bool.eq_false_iff.1 ?_
      refine wf.not_isSymbol (entry result ?_) ?_
      · exact List.mem_append_left _ (List.mem_append_left _ member)
      · rw [sound.names.results result member]
        exact notRoot
  have inside : (op.regions.flatMap Region.definitions).filter Definition.isSymbol = [] := by
    obtain ⟨around, encloses⟩ := Module.exists_encloses_iff.2 inModule
    have sound := (Operation.Throughout.of_encloses encloses
      (parse_sound source options).items).here
    refine List.filter_eq_nil_iff.2 fun definition member => Bool.eq_false_iff.1 ?_
    refine wf.not_isSymbol (entry definition (List.mem_append_right _ member)) ?_
    obtain ⟨region, inOp, inRegion⟩ := List.mem_flatMap.1 member
    rw [(sound.regions region inOp).names definition inRegion]
    exact parse_scope_ne_root source options inModule inOp
  have own := parse_everywhere Parser.Gives.declares_bodies source options _ op inModule
  rw [Operation.definitions, List.filter_append, List.filter_append, results, inside,
    List.nil_append, List.append_nil]
  exact own

/-- The symbols of a module are those that its operations declare. -/
theorem parse_symbols_perm {source : String} {options : Options}
    (clean : (parse source options).hasErrors = false) :
    (parse source options).unit.symbols.symbols.Perm (parse source options).unit.declarations := by
  have declared : (parse source options).unit.definitions.filter Definition.isSymbol =
      (parse source options).unit.declarations := by
    rw [Module.definitions, Module.declarations, List.filter_flatMap,
      List.filterMap_eq_flatMap_toList]
    exact List.flatMap_congr fun op inModule => parse_declares clean inModule
  rw [← declared, ← (parse_wellFormed source options).filter_entries]
  exact ((parse_definitions_perm clean).filter _).symm

theorem parse_symbols_nodup (source : String) (options : Options) :
    ((parse source options).unit.symbols.symbols.map (·.name)).Nodup := by
  obtain ⟨_, _, _, trail, _⟩ := (sourceUnit_interruptible options).traced
    ⟨source.toList, options, .structural⟩ (Parser.initial (tokenize source))
  obtain ⟨_, steps, _⟩ := trail.steps
  rw [parse_symbols]
  exact steps.symbols_nodup .nil

/-- Without errors every name that an operation refers to resolves. -/
theorem parse_resolved {source : String} {options : Options}
    (clean : (parse source options).hasErrors = false) {op : Operation}
    (inModule : op ∈ (parse source options).unit.preorder) {reference : Reference}
    (inOperation : reference ∈ op.references) :
    ((parse source options).unit.symbols.resolve reference).isSome := by
  obtain ⟨uses, settled, verdicts, _, covered, _, resolved, _, judged, reported, _⟩ :=
    parse_judged source options .structural
  have none : verdicts = [] := by
    refine List.eq_nil_iff_forall_not_mem.2 fun verdict member => ?_
    have listed := (List.mem_filter.1 (reported.mem_iff.2 (List.mem_map_of_mem member))).1
    exact absurd rfl (List.any_eq_false.1 clean _ listed)
  rw [none, List.map_nil, List.append_nil] at judged
  exact resolved reference (judged.mem_iff.1 (covered op inModule reference inOperation))

/-- Whether the symbols of a module are the names of its functions and globals. -/
structure Module.Declares (unit : Module) : Prop where
  /-- The items are functions and globals, and their names are symbols. -/
  items : ∀ item ∈ unit.items, item.opcode.isDeclaration = true ∧
    ∃ name ∈ unit.symbols.symbols, item.declared? = some name
  /-- There is one symbol for each function and each global, in whichever region it stands. -/
  symbols : unit.symbols.symbols.Perm unit.declarations
  /-- No two symbols have the same name. -/
  distinct : (unit.symbols.symbols.map (·.name)).Nodup
  /-- A use of a symbol means the name of a function or a global. -/
  uses : ∀ op ∈ unit.preorder, ∀ reference ∈ op.references, reference.kind = .symbol →
    ∃ declaration ∈ unit.preorder, ∃ name, declaration.declared? = some name ∧
      unit.symbols.resolve reference = some name
  /-- If no function and no global stands in a region, the symbols are the names of the items. -/
  flat : (∀ item ∈ unit.items, ∀ child ∈ item.children, ∀ op ∈ child.preorder,
    op.declared? = none) → unit.symbols.symbols.Perm (unit.items.filterMap Operation.declared?)

theorem Module.declarations_of_flat {unit : Module} (flat : ∀ item ∈ unit.items,
      ∀ child ∈ item.children, ∀ op ∈ child.preorder, op.declared? = none) :
    unit.declarations = unit.items.filterMap Operation.declared? := by
  rw [declarations, preorder, List.filterMap_flatMap, List.filterMap_eq_flatMap_toList]
  refine List.flatMap_congr fun item member => ?_
  have inside : (item.children.flatMap Operation.preorder).filterMap Operation.declared? = [] := by
    refine List.filterMap_eq_nil_iff.2 fun op inside => ?_
    obtain ⟨child, isChild, inside⟩ := List.mem_flatMap.1 inside
    exact flat item member child isChild op inside
  rw [Operation.preorder_eq, List.filterMap_cons]
  split <;> simp [*]

/-- The symbols of a source unit without errors are the names of its functions and globals. -/
theorem parse_declarations {source : String} {options : Options}
    (clean : (parse source options).hasErrors = false) : (parse source options).unit.Declares where
  items := by
    intro item member
    obtain ⟨_, _, reads, _⟩ := parse_reads clean
    have isDeclaration := (reads.declare item member).2
    refine ⟨isDeclaration, ?_⟩
    obtain ⟨name, declared⟩ := Option.isSome_iff_exists.1
      ((Payload.isSome_declared? item.payload).trans isDeclaration)
    have inModule := Module.exists_encloses_iff.1 ⟨[], .top member⟩
    exact ⟨name, (parse_symbols_perm clean).mem_iff.2
      (List.mem_filterMap.2 ⟨item, inModule, declared⟩),
      declared⟩
  symbols := parse_symbols_perm clean
  distinct := parse_symbols_nodup source options
  uses := by
    intro op inModule reference inOperation isSymbol
    obtain ⟨name, found⟩ := Option.isSome_iff_exists.1 (parse_resolved clean inModule inOperation)
    have named : (parse source options).unit.symbols.symbol reference.name = some name := by
      rw [SymbolTable.resolve, isSymbol] at found
      exact found
    obtain ⟨declaration, isOperation, declared⟩ := List.mem_filterMap.1
      ((parse_symbols_perm clean).mem_iff.1 (findName_eq_some named).1)
    exact ⟨declaration, isOperation, name, declared, found⟩
  flat flat := by
    rw [← Module.declarations_of_flat flat]
    exact parse_symbols_perm clean

/-- Two functions, the first of them an alias for the second. -/
def aliasedFunction : String :=
  "cir.func @f() alias(@g)\ncir.func @g()"

theorem parse_declarations_alias :
    (parse aliasedFunction {}).hasErrors = false ∧
      (parse aliasedFunction {}).unit.symbols.symbols.map (·.name) = ["g", "f"] ∧
      (parse aliasedFunction {}).unit.Declares :=
  ⟨by cbv, by cbv, parse_declarations (by cbv)⟩

/-- A function in the body of another one. -/
def nestedFunction : String :=
  "cir.func @f() { cir.func @g() cir.return }"

/-- The function in the body is a symbol of the module, but the module has one item only. -/
theorem nestedFunction_isSymbol :
    (parse nestedFunction {}).hasErrors = false ∧
      (parse nestedFunction {}).unit.symbols.symbols.map (·.name) = ["g", "f"] ∧
      (parse nestedFunction {}).unit.items.map (fun item => item.declared?.map (·.name)) =
        [some "f"] ∧
      ¬(parse nestedFunction {}).unit.symbols.symbols.Perm
        ((parse nestedFunction {}).unit.items.filterMap Operation.declared?) := by
  have symbols : (parse nestedFunction {}).unit.symbols.symbols.length = 2 := by cbv
  have items : (parse nestedFunction {}).unit.items.length = 1 := by cbv
  refine ⟨by cbv, by cbv, by cbv, fun perm => ?_⟩
  have fewer := List.length_filterMap_le Operation.declared? (parse nestedFunction {}).unit.items
  have same := perm.length_eq
  omega

end CirText
