import CirText.Proofs.Parser.Inherited
import CirText.Proofs.Parser.Trail
import Mathlib.Data.List.Sort

/-!
# Deprecated forms do not change how parsing goes on

A parser adds diagnostics but does not look at them. So if warnings of deprecated forms are switched
off, and those that have been given are taken back, every run ends as before, without the warnings
that it gave. Sorting keeps the order of what is left.
-/

namespace CirText

/-! ## Sorting what a filter leaves -/

section Sorting

variable {α : Type} {le : α → α → Bool}

theorem takeWhile_append_of_forall {p : α → Bool} {front back : List α}
    (yes : ∀ a ∈ front, p a = true)
    (no : ∀ a ∈ back, p a = false) : (front ++ back).takeWhile p = front := by
  rw [List.takeWhile_append_of_pos yes]
  cases back with
  | nil => simp
  | cons b back => simp [no b List.mem_cons_self]

/-- A filter may be applied before a stable sort as well as after it. -/
theorem filter_mergeSort (trans : ∀ a b c, le a b → le b c → le a c)
    (total : ∀ a b, (le a b || le b a) = true) (p : α → Bool) (items : List α) :
    (items.mergeSort le).filter p = (items.filter p).mergeSort le := by
  induction items with
  | nil => simp
  | cons a items ih =>
    obtain ⟨front, back, whole, rest, before⟩ := List.mergeSort_cons trans total a items
    rw [whole, List.filter_append]
    rw [rest, List.filter_append] at ih
    cases chosen : p a with
    | false =>
      rw [List.filter_cons_of_neg (by simp [chosen]), List.filter_cons_of_neg (by simp [chosen])]
      exact ih
    | true =>
      rw [List.filter_cons_of_pos chosen, List.filter_cons_of_pos chosen]
      obtain ⟨first, last, sorted, others, earlier⟩ :=
        List.mergeSort_cons trans total a (items.filter p)
      rw [sorted]
      rw [others] at ih
      have after := List.pairwise_mergeSort trans total (a :: items)
      have later := List.pairwise_mergeSort trans total (a :: items.filter p)
      rw [whole, List.pairwise_append] at after
      rw [sorted, List.pairwise_append] at later
      -- The place of `a` is behind what is less, and so it is the same in both lists.
      have same : front.filter p = first := by
        calc front.filter p
            = (front.filter p ++ back.filter p).takeWhile fun b => !le a b :=
              (takeWhile_append_of_forall (fun b member => before b (List.mem_filter.1 member).1)
                fun b member => by
                  simp [(List.pairwise_cons.1 after.2.1).1 b (List.mem_filter.1 member).1]).symm
          _ = (first ++ last).takeWhile fun b => !le a b := by rw [ih]
          _ = first :=
              takeWhile_append_of_forall earlier
                fun b member => by simp [(List.pairwise_cons.1 later.2.1).1 b member]
      rw [same] at ih ⊢
      rw [List.append_cancel_left ih]

end Sorting

theorem Span.notAfter_trans (a b c : Span) (left : a.notAfter b) (right : b.notAfter c) :
    a.notAfter c := by
  simp only [notAfter, precedes, Bool.not_eq_true', Bool.or_eq_false_iff, decide_eq_false_iff_not,
    Bool.and_eq_false_imp, beq_iff_eq] at *
  omega

theorem Span.notAfter_total (a b : Span) : (a.notAfter b || b.notAfter a) = true := by
  simp only [notAfter, precedes, Bool.or_eq_true, Bool.not_eq_true', Bool.or_eq_false_iff,
    decide_eq_false_iff_not, Bool.and_eq_false_imp, beq_iff_eq]
  omega

/-! ## Leaving warnings out -/

/-- The options with warnings of deprecated forms switched off. -/
def Options.quiet (options : Options) : Options :=
  { options with deprecations := false }

/-- The diagnostics without warnings of deprecated forms. -/
def Diagnostics.quiet (diagnostics : Diagnostics) : Diagnostics :=
  ⟨diagnostics.items.filter (!·.isDeprecated)⟩

theorem Diagnostics.quiet_push {diagnostic : Diagnostic} (other : diagnostic.isDeprecated = false)
    (diagnostics : Diagnostics) : (diagnostics.push diagnostic).quiet =
      diagnostics.quiet.push diagnostic := by
  simp [quiet, push, other]

theorem Diagnostics.quiet_push_deprecated {diagnostic : Diagnostic}
    (deprecated : diagnostic.isDeprecated = true)
    (diagnostics : Diagnostics) : (diagnostics.push diagnostic).quiet = diagnostics.quiet := by
  simp [quiet, push, deprecated]

theorem Diagnostics.quiet_append {more : List Diagnostic}
    (others : ∀ diagnostic ∈ more, diagnostic.isDeprecated = false) (diagnostics : Diagnostics) :
    (diagnostics.append more).quiet = diagnostics.quiet.append more := by
  have all : more.filter (!·.isDeprecated) = more :=
    List.filter_eq_self.2 fun diagnostic member => by simp [others diagnostic member]
  apply congrArg Diagnostics.mk
  rw [append, quiet]
  apply Array.toList_inj.1
  simp [all]

theorem Diagnostics.sorted_quiet (diagnostics : Diagnostics) :
    diagnostics.quiet.sorted = diagnostics.sorted.filter (!·.isDeprecated) := by
  rw [sorted, sorted, quiet, Array.toList_filter]
  exact (filter_mergeSort (fun a b c => Span.notAfter_trans a.span b.span c.span)
    (fun a b => Span.notAfter_total a.span b.span) _ _).symm

namespace Parser

/-- The same input with warnings of deprecated forms switched off. -/
def Input.quiet (input : Input) : Input :=
  { input with options := input.options.quiet }

/-- The same state without warnings of deprecated forms. -/
def State.quiet (state : State) : State :=
  { state with diagnostics := state.diagnostics.quiet }

/-- Whether a run of the parser without warnings is the run with them, with the warnings left
out. -/
def Heedless {α : Type} (parser : Parser α) : Prop :=
  ∀ input state, parser input.quiet state.quiet =
    ((parser input state).1, (parser input state).2.quiet)

variable {α β σ : Type}

theorem heedless_look {read : State → α} (same : ∀ state : State, read state.quiet = read state) :
    Heedless (look read) :=
  fun _ state => congrArg (fun a => (some a, state.quiet)) (same state)

theorem heedless_bind {parser : Parser α} {next : α → Parser β} (first : Heedless parser)
    (second : ∀ a, Heedless (next a)) : Heedless (parser >>= next) := by
  intro input state
  rw [bind_run, bind_run, first]
  cases run : parser input state with
  | mk outcome middle =>
    cases outcome with
    | none => rfl
    | some a => exact second a input middle

theorem heedless_change {update : State → State}
    (same : ∀ state, update state.quiet = (update state).quiet) :
    Heedless (change update) :=
  fun _ state => congrArg (some (), ·) (same state)

theorem heedless_iterate {step : σ → Parser (Step σ β)}
    (steps : ∀ accumulated, Heedless (step accumulated))
    (accumulated : σ) : Heedless (iterate step accumulated) := by
  intro input state
  induction accumulated, state using iterate_induction step input with
  | failed accumulated state final run ran | done accumulated state result final run ran =>
    rw [iterate_run, steps, run, ran]
  | stuck accumulated state further final run fewer ran =>
    rw [iterate_run, steps, run, ran]
    exact if_neg fewer
  | again accumulated state further next run fewer ran ih =>
    rw [iterate_run, steps, run, ran]
    exact (if_pos fewer).trans ih

theorem heedless_warnDeprecated (opcode : Opcode) (message : String) (span : Span) :
    Heedless (warnDeprecated opcode message span) := by
  intro input state
  rw [warnDeprecated_run, warnDeprecated_run]
  change (some (), state.quiet) = _
  cases warns : input.options.deprecations with
  | false => rfl
  | true =>
    rw [if_pos rfl, State.quiet, State.quiet, Diagnostics.quiet_push_deprecated rfl]

theorem heedless_define (kind : NameKind) (found : Token) : Heedless (define kind found) := by
  intro input state
  unfold define Tracker.define
  cases clash : state.tracker.clash? kind found.name with
  | none => simp only [State.quiet, clash]
  | some earlier =>
    simp only [State.quiet, clash]
    rw [Diagnostics.quiet_push rfl]

theorem heedless_embed (language : Sublanguage) (adapter : Adapters → Adapter α) :
    Heedless (embed language adapter) := by
  intro input state
  unfold embed
  cases outcome : (adapter input.adapters).read input.source state.cursor with
  | ok found => simp only [Input.quiet, State.quiet, outcome]
  | error error =>
    simp only [Input.quiet, State.quiet, outcome]
    rw [Diagnostics.quiet_push rfl]

/-- What is done when a scope is left, after what has been run in it. -/
def leaveScope (ran : Option α × State) : Option α × State :=
  (ran.1,
    { ran.2 with
      tracker := ran.2.tracker.pop.1
      diagnostics := ran.2.diagnostics.append (ran.2.tracker.pop.2.map .ofUnresolved) })

theorem inScope_run (parser : Parser α) (input : Input) (state : State) :
    inScope parser input state =
      leaveScope (parser input { state with tracker := state.tracker.push }) :=
  rfl

theorem quiet_verdicts (verdicts : List Unresolved) :
    ∀ diagnostic ∈ verdicts.map Diagnostic.ofUnresolved, diagnostic.isDeprecated = false := by
  intro diagnostic member
  obtain ⟨verdict, _, rfl⟩ := List.mem_map.1 member
  rfl

theorem heedless_inScope {parser : Parser α} (inner : Heedless parser) :
    Heedless (inScope parser) := by
  intro input state
  have ran := inner input { state with tracker := state.tracker.push }
  rw [inScope_run, inScope_run]
  change leaveScope
    (parser input.quiet (State.quiet { state with tracker := state.tracker.push })) = _
  rw [ran]
  simp only [leaveScope, State.quiet]
  rw [Diagnostics.quiet_append (quiet_verdicts _)]

theorem heedless_checkHalted : Heedless checkHalted := by
  intro input state
  cases ended : state.halted with
  | true => simp only [checkHalted, State.quiet, ended, if_true]
  | false =>
    cases cancelled : input.options.cancellation.isSet (countReadings .type state.readings)
      (countReadings .attribute state.readings) with
    | true =>
      simp only [checkHalted, State.quiet, Input.quiet, Options.quiet, ended, cancelled,
        Bool.false_eq_true, if_false, if_true]
      rw [Diagnostics.quiet_push rfl]
    | false =>
      simp only [checkHalted, State.quiet, Input.quiet, Options.quiet, ended, cancelled,
        Bool.false_eq_true, if_false]

/-- Being heedless of warnings is inherited. -/
theorem inherited_heedless : Inherited Heedless where
  pure a _ state := rfl
  fail _ state := rfl
  cursor := heedless_look fun _ => rfl
  halted := heedless_look fun _ => rfl
  construct := heedless_look fun _ => rfl
  scope := heedless_look fun _ => rfl
  skip := heedless_change fun _ => rfl
  halt := heedless_change fun _ => rfl
  takeId _ state := rfl
  resynchronize start := heedless_change fun state => by
    change (if state.halted then _ else _ : State) = State.quiet (if state.halted then _ else _)
    split <;> rfl
  report common := heedless_change fun state => by
    rw [State.quiet, State.quiet,
      Diagnostics.quiet_push (Diagnostic.isDeprecated_of_isCommon common)]
  reportAll common := heedless_change fun state => by
    rw [State.quiet, State.quiet, Diagnostics.quiet_append fun diagnostic member =>
      Diagnostic.isDeprecated_of_isCommon (common diagnostic member)]
  reportExpected what := heedless_change fun state => by
    rw [State.quiet, State.quiet, Diagnostics.quiet_push rfl]
  noteUse kind found _ state := rfl
  define := heedless_define
  type := heedless_embed _ _
  attributeOf _ := heedless_embed _ _
  checkHalted := heedless_checkHalted
  maxDepth all input state := all input.options.maxDepth input state
  bind := heedless_bind
  attempt inner input state :=
    congrArg (fun outcome => (some outcome.1, outcome.2)) (inner input state)
  naming construct inner input state :=
    congrArg (fun outcome => (outcome.1, { outcome.2 with construct := state.construct }))
      (inner input { state with construct })
  inScope := heedless_inScope
  iterate := heedless_iterate

end Parser

theorem run_quiet (source : String) (options : Options) (adapters : Adapters) :
    Parser.run source options.quiet adapters =
      ((Parser.run source options adapters).1, (Parser.run source options adapters).2.quiet) := by
  have lexed : ∀ diagnostic ∈ (tokenize source).errors.map Diagnostic.ofLexError,
      diagnostic.isDeprecated = false := by
    intro diagnostic member
    obtain ⟨error, _, rfl⟩ := List.mem_map.1 member
    rfl
  have start : (Parser.initial (tokenize source)).quiet = Parser.initial (tokenize source) := by
    simp only [Parser.State.quiet, Parser.initial]
    rw [Diagnostics.quiet_append lexed]
    rfl
  have unknown : ∀ keyword span,
      Parser.Heedless (Parser.report (.error (.unknownOpcode keyword) span)) :=
    fun keyword span => Parser.heedless_change fun state => by
      rw [Parser.State.quiet, Parser.State.quiet, Diagnostics.quiet_push rfl]
  have warns := Parser.heedless_warnDeprecated
  have ran := Parser.inherited_heedless.sourceUnit
    (fun regions => Parser.inherited_heedless.blockStep warns unknown regions)
    (fun regions => Parser.inherited_heedless.itemStep warns unknown regions) options.maxDepth
    ⟨source.toList, options, adapters⟩ (Parser.initial (tokenize source))
  rw [start] at ran
  exact ran

/-- Switching the warnings of deprecated forms off leaves the module as it is and takes these
warnings, and nothing else, out of the diagnostics. -/
theorem parse_quiet (source : String) (options : Options) (adapters : Adapters) :
    (parse source options.quiet adapters).unit = (parse source options adapters).unit ∧
      (parse source options.quiet adapters).diagnostics =
        (parse source options adapters).diagnostics.filter (!·.isDeprecated) := by
  have ran := run_quiet source options adapters
  constructor
  · simp only [parse, ran]
    rfl
  · simp only [parse, ran]
    rw [← Diagnostics.sorted_quiet, Diagnostics.quiet_append (Parser.quiet_verdicts _)]
    rfl

end CirText
