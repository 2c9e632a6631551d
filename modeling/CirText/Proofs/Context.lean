import CirText.Proofs.Parser.OpenScopes
import Mathlib

/-!
# Errors leave the context as it was

Operations and regions end in the context in which they start, whatever goes wrong in them. So when
a source unit has been parsed only the scope of the module is open, and on the way there every
message names the construct that it is about.
-/

namespace CirText

namespace Parser

/-- Whether the parsers of all that can contain a region name the construct that they read in their
messages, whatever the regions inside have to say. -/
structure NamesConstructs (region : RegionKind → Bool → Parser (Region Operation)) : Prop where
  /-- A source unit names the module, apart from what its operations say. -/
  unit : ∀ others, Leads (State.Speaks others) (operation region) →
    ∀ source options adapters, (initial (tokenize source)).Adds
      (fun diagnostic => diagnostic.Names "module" ∨ others diagnostic)
      (sourceUnit region ⟨source.toList, options, adapters⟩ (initial (tokenize source))).2
  /-- From its keyword on an operation names itself, apart from what its regions say. -/
  keyword : ∀ others,
    (∀ kind implicitTerminator, Leads (State.Speaks others) (region kind implicitTerminator)) →
    ∀ (input : Input) (state : State) (opcode : Opcode), state.cursor.peek.kind = .keyword →
      Opcode.ofKeyword? state.cursor.peek.text = some opcode →
      state.Adds (fun diagnostic => diagnostic.Names opcode.keyword ∨ others diagnostic)
        (fromKeyword region input state).2
  /-- Around that it names the construct around it. -/
  operation : ∀ others, Leads (State.Speaks others) (fromKeyword region) →
    Leads (State.Speaks others) (operation region)
  /-- A region names the construct around it or itself, apart from what its operations say. -/
  region : ∀ others, Leads (State.Speaks others) (Parser.operation region) →
    ∀ kind implicitTerminator,
      Leads (State.Speaks fun diagnostic => diagnostic.Names kind.describe ∨ others diagnostic)
        (regionAround region kind implicitTerminator)

theorem namesConstructs (region : RegionKind → Bool → Parser (Region Operation)) :
    NamesConstructs region where
  unit others operations source options adapters :=
    (speaks_sourceUnit operations ⟨source.toList, options, adapters⟩
      (initial (tokenize source))).added
  keyword others regions input state opcode isKeyword known := by
    rw [fromKeyword_run_of_known isKeyword known]
    exact afterKeyword_names regions state.cursor opcode input
      { state with cursor := state.cursor.next }
  operation _ := speaks_operation
  region _ := speaks_regionAround

end Parser

open CirText.Parser in
/-- Every operation and every region ends in the context in which it starts, whether it can be read
or not, and the depth of regions that is checked against the limit belongs to that context. So only
the scope of the module is open in the end. All messages name the construct that they are about:
each construct does so around whatever regions it contains, a region is read around those of the
next level, and one that is too deep names the construct around it. -/
theorem context_restored (source : String) (options : Options) (adapters : Adapters) :
    (∀ levels, Leads (fun before after => before.Resumes after ∧ after.depth = before.depth)
        (operation (regionWithin levels)) ∧
      ∀ kind implicitTerminator,
        Leads (fun before after => before.Resumes after ∧ after.depth = before.depth)
        (regionWithin levels kind implicitTerminator)) ∧
    (∀ bound, options.maxDepth < bound → run source options adapters =
      sourceUnit (regionByDepth bound) ⟨source.toList, options, adapters⟩
        (initial (tokenize source))) ∧
    (∀ region, NamesConstructs region) ∧
    (∀ levels, regionWithin (levels + 1) = regionAround (regionWithin levels)) ∧
    (∀ kind implicitTerminator others,
      Leads (State.Speaks others) (regionWithin 0 kind implicitTerminator)) ∧
    (run source options adapters).2.tracker.openScopes = [.root] ∧
    (run source options adapters).2.construct = "module" := by
  have ended : (initial (tokenize source)).Resumes (run source options adapters).2 :=
    resumes_sourceUnit options.maxDepth ⟨source.toList, options, adapters⟩
    (initial (tokenize source))
  have resumed : ∀ {before after : State}, before.Resumes after →
      before.Resumes after ∧ after.depth = before.depth :=
    fun resumes => ⟨resumes, resumes.depth⟩
  refine ⟨fun levels => ⟨?_, ?_⟩, ?_, namesConstructs, regionWithin_succ,
    fun kind implicitTerminator _ => speaks_regionWithin_zero kind implicitTerminator,
    ended.openScopes,
    ended.construct⟩
  · exact fun input state => resumed (resumes_operation (resumes_regionWithin levels) input state)
  · exact fun kind implicitTerminator input state =>
      resumed (resumes_regionWithin levels kind implicitTerminator input state)
  · exact fun bound enough => run_eq_sourceUnit_regionByDepth source enough

/-- An error in an operation inside a region is not taken for one of the operation around it, nor
the other way round, and the region is closed again. -/
theorem context_restored_afterError :
    ({} : Options).maxDepth < 65 ∧
    Parser.run "cir.func @f() \x7b cir.if %c \x7b %x = cir.load 5 \x7d else 7 \x7d" {} =
      Parser.sourceUnit (Parser.regionByDepth 65)
        ⟨"cir.func @f() \x7b cir.if %c \x7b %x = cir.load 5 \x7d else 7 \x7d".toList, {},
          .structural⟩
        (Parser.initial
          (tokenize "cir.func @f() \x7b cir.if %c \x7b %x = cir.load 5 \x7d else 7 \x7d")) ∧
    (parse "cir.func @f() \x7b cir.if %c \x7b %x = cir.load 5 \x7d else 7 \x7d"
      {}).diagnostics.filterMap
      (fun diagnostic => match diagnostic.kind with
        | .malformed construct _ _ => some construct
        | _ => none) = ["cir.load", "cir.if"] :=
  ⟨by decide, (context_restored "cir.func @f() \x7b cir.if %c \x7b %x = cir.load 5 \x7d else 7 \x7d"
    {} _).2.1 65 (by decide), by cbv⟩

end CirText
