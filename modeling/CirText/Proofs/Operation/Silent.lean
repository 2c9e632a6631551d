import CirText.Proofs.Deprecations
import CirText.Proofs.Parser.Headway
import CirText.Proofs.Parser.Reports

/-!
# Reading without a remark

What a parser means it also reads where something has gone wrong before, and then it adds nothing to
what has been reported. It gives no warnings either if nothing that it reads is written in a
deprecated form.
-/

namespace CirText

open CirText.Parser

/-- Whether neither an operation nor one inside it is written in a deprecated form, if warnings of
these are wanted. -/
def Operation.Calm (options : Options) (op : Operation) : Prop :=
  options.deprecations = true → ∀ inner ∈ op.preorder, inner.deprecated? = none

/-- Whether no operation in a region is written in a deprecated form, if warnings of these are
wanted. -/
def Region.Calm (options : Options) (region : Region Operation) : Prop :=
  ∀ op ∈ region.ops, op.Calm options

/-- Nothing is owed for operations of which none is written in a deprecated form. -/
theorem Operation.deprecations_eq_nil {options : Options} (wanted : options.deprecations = true)
    {tokens : List Token} {ops : List Operation} :
    Operation.deprecations tokens ops = [] ↔ ∀ op ∈ ops, op.Calm options := by
  rw [deprecations, List.map_eq_nil_iff, List.filter_eq_nil_iff]
  constructor
  · intro none_ op member _ inner inside
    simpa using none_ inner (List.mem_flatMap.2 ⟨op, member, inside⟩)
  · intro calm inner inside
    obtain ⟨op, member, inside⟩ := List.mem_flatMap.1 inside
    simp [calm op member wanted inner inside]

theorem Operation.calm_iff {options : Options} {op : Operation} :
    op.Calm options ↔ (options.deprecations = true → op.deprecated? = none) ∧
      ∀ region ∈ op.payload.regions, region.Calm options := by
  simp only [Calm, op.preorder_eq, List.forall_mem_cons, Region.Calm, children, List.mem_flatMap]
  constructor
  · intro all
    refine ⟨fun wanted => (all wanted).1, fun region member child inside wanted inner within => ?_⟩
    exact (all wanted).2 inner ⟨child, ⟨region, member, inside⟩, within⟩
  · rintro ⟨here, all⟩ wanted
    refine ⟨here wanted, ?_⟩
    rintro inner ⟨child, ⟨region, member, inside⟩, within⟩
    exact all region member child inside wanted inner within

namespace Parser

variable {α β : Type}

theorem Settles.eq_nil {new : List Diagnostic} (settles : Settles new []) : new = [] :=
  List.map_eq_nil_iff.1 (List.Perm.eq_nil settles)

/-- Whether a parser, wherever it starts behind the given cursor, reads what it means and reports
nothing if that is calm. -/
structure Silent (options : Options) (first : Cursor) (parser : Parser α) (meaning : Meaning α)
    (calm : α → Prop) : Prop where
  means : Means parser meaning
  appends : Appends parser
  forward : Forward parser
  warns : options.deprecations = true → Warns first parser fun new _ _ a _ => calm a → new = []

/-- Whether parsing goes on in a state behind the given cursor. -/
structure State.Live (state : State) (first : Cursor) : Prop where
  live : state.halted = false
  reached : first.Reaches state.cursor

/-- Whether a run of a parser gives something, goes on at a stage and has reported nothing. -/
def Reads (first : Cursor) (parser : Parser α) (input : Input) (state : State) (a : α)
    (after : Stage) : Prop :=
  ∃ final, parser input state = (some a, final) ∧ final.stage = after ∧
    final.diagnostics = state.diagnostics ∧ final.Live first

namespace Silent

variable {options : Options} {first : Cursor} {parser : Parser α} {meaning : Meaning α}
    {calm : α → Prop}

/-- What a silent parser means it reads, whatever has been reported before. -/
theorem reads {input : Input} (silent : Silent input.options first parser meaning calm)
    (structural : input.adapters = .structural) {state : State} {a : α} {after : Stage}
    (never : ∀ types attributes, input.options.cancellation.isSet types attributes = false)
    (live : state.Live first) (related : meaning input.source state.stage a after)
    (isCalm : calm a) : Reads first parser input state a after := by
  let blank := state.reporting {}
  obtain ⟨final, run, rfl, clean, stillLive⟩ :=
    silent.means.complete input blank a after structural (by rintro _ ⟨⟩) live.live never related
  obtain ⟨new, may, adds⟩ := silent.appends input blank
  obtain ⟨added, again⟩ := adds state.diagnostics
  rw [run] at added again
  have listed : final.diagnostics.items.toList = new := by
    rw [show final.diagnostics = _ from added]
    simp [blank, State.reporting, Diagnostics.append]
  have deprecated : ∀ diagnostic ∈ new, diagnostic.isDeprecated = true ∧
      input.options.deprecations = true := by
    intro diagnostic member
    refine (may diagnostic member).resolve_left fun error => ?_
    rw [clean diagnostic (listed ▸ member)] at error
    cases error
  have onward := silent.forward input blank
  rw [run] at onward
  have nothing : new = [] := by
    cases on : input.options.deprecations with
    | false =>
      refine List.eq_nil_iff_forall_not_mem.2 fun diagnostic member => ?_
      rw [on] at deprecated
      cases (deprecated diagnostic member).2
    | true =>
      have ran := silent.warns on input blank ⟨on, structural⟩
      rw [run] at ran
      obtain ⟨_, _, b, told, same, warned, quiet⟩ := (ran clean).2 live.live live.reached
      cases same
      obtain rfl := quiet isCalm
      have unwarned : new.filter Diagnostic.isDeprecated = [] := by
        rw [← listed]
        exact warned
      rwa [List.filter_eq_self.2 fun diagnostic member =>
        (deprecated diagnostic member).1] at unwarned
  obtain rfl := nothing
  refine ⟨final.reporting state.diagnostics, ?_, rfl, rfl, stillLive, live.reached.trans onward⟩
  rw [Diagnostics.append_nil] at again
  exact again

/-- A mute parser is silent. -/
theorem ofMute (means : Means parser meaning) (appends : Appends parser) (mute : Mute parser)
    (forward : Forward parser) : Silent options first parser meaning fun _ => True :=
  ⟨means, appends, forward, fun _ => (Warns.silent means mute forward).mono fun _ _ _ _ _ quiet _ =>
    quiet⟩

theorem resultNames : Silent options first Parser.resultNames ResultNamesRead fun _ => True :=
  ofMute Means.resultNames inherited_appends.resultNames inherited_mute.resultNames
    inherited_forward.resultNames

theorem mapM_define (names : List Token) :
    Silent options first (names.mapM (Parser.define .value)) (fun _ => DefinesAll names) fun _ =>
      True :=
  ofMute (Means.mapM_define names) (inherited_appends.mapM_define names)
    (inherited_mute.mapM_define names)
    (inherited_forward.mapM_define names)

theorem punct (mark : Punct) : Silent options first (Parser.punct mark)
    (fun _ before found after => found.isPunct mark = true ∧ before.Passes found after) fun _ =>
      True :=
  ofMute (Means.punct mark) (inherited_appends.punct mark) (inherited_mute.punct mark)
    (inherited_forward.punct mark)

theorem unitHeader (start : Cursor) :
    Silent options first (Parser.unitHeader start) (UnitHeaderReads start) fun _ => True :=
  ofMute (Means.unitHeader start) (inherited_appends.unitHeader start)
    (inherited_mute.unitHeader start)
    (inherited_forward.unitHeader start)

end Silent

/-! ## Operations and regions -/

/-- What is known of a parser of regions: what it means, that it goes forward and adds to what has
been reported, and that it warns of what is owed. -/
structure Regular (first : Cursor) (parser : RegionKind → Bool → Parser (Region Operation))
    (region : RegionKind → Bool → Meaning (Region Operation)) : Prop where
  placed : ∃ text, first.Placed text
  means : Means.OfRegions parser region
  owes : Warns.OfRegions first parser
  appends : ∀ kind implicitTerminator, Appends (parser kind implicitTerminator)
  forward : ∀ kind implicitTerminator, Forward (parser kind implicitTerminator)

theorem Regular.regionWithin {first : Cursor} {text : List Char} (placed : first.Placed text)
    (levels : Nat) : Regular first (Parser.regionWithin levels) (RegionWithinReads levels) where
  placed := ⟨text, placed⟩
  means := Means.regionWithin levels
  owes := Warns.regionWithin placed levels
  appends := appends_regionWithin levels
  forward := forward_regionWithin levels

namespace Silent

variable {options : Options} {first : Cursor}
    {parser : RegionKind → Bool → Parser (Region Operation)}
  {region : RegionKind → Bool → Meaning (Region Operation)} (regular : Regular first parser region)

include regular

theorem blockHeader :
    Silent options first (Parser.blockHeader parser) (BlockHeaderReads region) fun _ => True :=
  ofMute (Means.blockHeader regular.means) inherited_appends.blockHeader inherited_mute.blockHeader
    inherited_forward.blockHeader

/-- A part of the body of an operation is read without a remark if nothing is missed at its end. -/
theorem grammar {α : Type} (start : Cursor) (grammar : Grammar (Region Operation) α)
    (steady : grammar.steady = true)
    {allowed : Bool} (tidy : grammar.recommendsLast allowed = true) :
    Silent options first (grammar.parse start parser) (grammar.Reads region) fun a =>
      (∀ inner ∈ grammar.regionsOf a, inner.Calm options) ∧
        (options.deprecations = true → grammar.missing? a = none) where
  means := (Grammar.parse_means start regular.means grammar steady).1
  appends := inherited_appends.grammar start grammar fun _ =>
    ⟨appends_warnDeprecated, regular.appends⟩
  forward := forward_parse regular.forward start grammar
  warns wanted := by
    refine (Grammar.parse_warns regular.means regular.owes grammar steady tidy).mono ?_
    rintro new _ _ a _ settles ⟨calm, complete⟩
    have nothing :
        (grammar.regionsOf a).flatMap (fun inner => Operation.deprecations first.rest inner.ops) =
        [] :=
      List.flatMap_eq_nil_iff.2 fun inner member =>
        (Operation.deprecations_eq_nil wanted).2 (calm inner member)
    rw [Grammar.Warned, nothing, complete wanted] at settles
    exact settles.eq_nil

theorem operation :
    Silent options first (Parser.operation parser) (OperationReads region)
      (Operation.Calm options) where
  means := Means.operation regular.means
  appends := inherited_appends.operation appends_warnDeprecated appends_unknownOpcode
    regular.appends
  forward := forward_operation regular.forward
  warns wanted := by
    obtain ⟨text, placed⟩ := regular.placed
    refine (Warns.operation placed regular.means regular.owes).mono fun new _ _ op _ settles calm =>
      ?_
    rw [(Operation.deprecations_eq_nil wanted).2 (List.forall_mem_singleton.2 calm)] at settles
    exact settles.eq_nil

/-- The blocks of a region are read without a remark if nothing that is read of them from here on is
written in a deprecated form. -/
theorem blocks (kind : RegionKind) (opening : Span) (progress : Progress) :
    Silent options first (iterate (blockStep parser kind opening) progress)
      (fun source => BlocksRead region kind source progress)
      fun found => ∃ more, found.1.flatMap (·.ops) = progressOps progress ++ more ∧ ∀ op ∈ more,
        op.Calm options where
  means := (Means.iterate (Means.blockStep regular.means kind opening)
    (Means.progresses_blockStep regular.means)
    progress).congr fun _ _ _ _ => Means.loop_blocksRead
  appends := inherited_appends.iterate
    (inherited_appends.blockStep appends_warnDeprecated appends_unknownOpcode
    regular.appends kind opening) progress
  forward := inherited_forward.iterate (forward_blockStep regular.forward kind opening) progress
  warns wanted := by
    obtain ⟨text, placed⟩ := regular.placed
    refine (Warns.iterate (Warns.blockStep placed regular.means regular.owes kind opening)
      progress).mono ?_
    rintro new _ _ found _ owes ⟨more, split, calm⟩
    rw [split, Operation.deprecations_append, (Operation.deprecations_eq_nil wanted).2 calm,
      List.perm_append_left_iff,
      List.nil_perm, List.map_eq_nil_iff] at owes
    exact owes

end Silent

end Parser

end CirText
