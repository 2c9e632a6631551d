import CirText.Proofs.Parser.Meaning
import CirText.Proofs.Scope.Place

/-!
# Where a parser stands

A stage of parsing is placed in a source text if the tokens that are still to be read and the names
that the tracker remembers stand in the text, and a state is if all its diagnostics do too. From one
placed stage to a later one reading goes forward, and all scopes that are opened are closed again.
-/

namespace CirText

/-! ## Cursors -/

namespace Cursor

variable {text : List Char} {cursor : Cursor}

/-- The offset at which the next token starts. -/
def here (cursor : Cursor) : Nat :=
  cursor.peek.span.start

/-- Whether what is still to be read stands in a text. -/
structure Placed (text : List Char) (cursor : Cursor) : Prop where
  size : cursor.size = Text.byteSize text
  stop : Text.Boundary text cursor.lastStop
  ordered : Lexer.Ordered cursor.lastStop cursor.rest
  tokens : ∀ token ∈ cursor.rest, token.On text

theorem placed_start (source : String) :
    (ofTokenized (tokenize source) 0).Placed source.toList where
  size := rfl
  stop := Text.boundary_zero _
  ordered := ordered_tokens source
  tokens := tokens_on source

theorem next_of_nil (ends : cursor.rest = []) : cursor.next = cursor := by
  unfold next
  rw [ends]

theorem next_of_cons {token : Token} {rest : List Token} (more : cursor.rest = token :: rest) :
    cursor.next = { cursor with rest, position := cursor.position + 1, last := some token } := by
  unfold next
  rw [more]

theorem peek_of_nil (ends : cursor.rest = []) : cursor.peek = .endAt cursor.size := by
  rw [peek, ends]
  rfl

theorem advance_of_nil (ends : cursor.rest = []) (count : Nat) : cursor.advance count = cursor := by
  induction count with
  | zero => rfl
  | succ count ih => rw [advance, next_of_nil ends, ih]

/-- Where a token has been read, reading has come to its end. -/
theorem lastStop_next {token : Token} {rest : List Token} (more : cursor.rest = token :: rest) :
    cursor.next.lastStop = token.span.stop := by
  rw [next_of_cons more]
  rfl

namespace Placed

theorem next (placed : cursor.Placed text) : cursor.next.Placed text := by
  cases more : cursor.rest with
  | nil =>
    rw [next_of_nil more]
    exact placed
  | cons token rest =>
    have ordered := placed.ordered
    have tokens := placed.tokens
    rw [more] at ordered tokens
    rw [next_of_cons more]
    exact ⟨placed.size, (tokens token List.mem_cons_self).span.stop, ordered.2.2,
      fun other member => tokens other (List.mem_cons_of_mem _ member)⟩

theorem advance (placed : cursor.Placed text) (count : Nat) :
    (cursor.advance count).Placed text := by
  induction count generalizing cursor with
  | zero => exact placed
  | succ count ih => exact ih placed.next

theorem peek (placed : cursor.Placed text) : cursor.peek.span.On text := by
  cases more : cursor.rest with
  | nil =>
    rw [peek_of_nil more]
    exact Span.on_emptyAt (placed.size ▸ Text.boundary_size text)
  | cons token rest =>
    rw [peek_of_cons more]
    exact (placed.tokens token (more ▸ List.mem_cons_self)).span

theorem lastStop_le_here (placed : cursor.Placed text) : cursor.lastStop ≤ cursor.here := by
  cases more : cursor.rest with
  | nil =>
    rw [here, peek_of_nil more]
    exact placed.size ▸ placed.stop.le
  | cons token rest =>
    have ordered := placed.ordered
    rw [more] at ordered
    rw [here, peek_of_cons more]
    exact ordered.1

theorem here_le_next (placed : cursor.Placed text) : cursor.here ≤ cursor.next.here := by
  cases more : cursor.rest with
  | nil => rw [next_of_nil more]
  | cons token rest =>
    have later := placed.next.lastStop_le_here
    rw [lastStop_next more] at later
    have inside := (placed.tokens token (more ▸ List.mem_cons_self)).span.ordered
    rw [here, peek_of_cons more]
    exact Nat.le_trans inside later

theorem lastStop_le_next (placed : cursor.Placed text) :
    cursor.lastStop ≤ cursor.next.lastStop := by
  cases more : cursor.rest with
  | nil => rw [next_of_nil more]
  | cons token rest =>
    have ordered := placed.ordered
    rw [more] at ordered
    rw [lastStop_next more]
    exact Nat.le_trans ordered.1 (Nat.le_of_lt ordered.2.1)

theorem here_le_advance (placed : cursor.Placed text) (count : Nat) :
    cursor.here ≤ (cursor.advance count).here := by
  induction count generalizing cursor with
  | zero => exact Nat.le_refl _
  | succ count ih => exact Nat.le_trans placed.here_le_next (ih placed.next)

theorem lastStop_le_advance (placed : cursor.Placed text) (count : Nat) :
    cursor.lastStop ≤ (cursor.advance count).lastStop := by
  induction count generalizing cursor with
  | zero => exact Nat.le_refl _
  | succ count ih => exact Nat.le_trans placed.lastStop_le_next (ih placed.next)

/-- What is read last after a token does not start before it. -/
theorem last_advance (placed : cursor.Placed text) {token : Token}
    (behind : cursor.last = some token) (nonempty : token.span.start ≤ token.span.stop)
    (count : Nat) :
    ∃ last, (cursor.advance count).last = some last ∧ token.span.start ≤ last.span.start ∧
      token.span.stop ≤ last.span.stop ∧ cursor.position ≤ (cursor.advance count).position := by
  induction count generalizing cursor token with
  | zero => exact ⟨token, behind, Nat.le_refl _, Nat.le_refl _, Nat.le_refl _⟩
  | succ count ih =>
    cases more : cursor.rest with
    | nil =>
      rw [advance_of_nil more]
      exact ⟨token, behind, Nat.le_refl _, Nat.le_refl _, Nat.le_refl _⟩
    | cons next rest =>
      have ordered := placed.ordered
      rw [more, lastStop, behind] at ordered
      have starts : token.span.stop ≤ next.span.start := ordered.1
      have ends : next.span.start < next.span.stop := ordered.2.1
      have last : cursor.next.last = some next := by rw [next_of_cons more]
      have further : cursor.position ≤ cursor.next.position := by
        rw [next_of_cons more]
        exact Nat.le_succ _
      obtain ⟨final, found, start, stop, position⟩ := ih placed.next last (Nat.le_of_lt ends)
      exact ⟨final, found, by omega, by omega, Nat.le_trans further position⟩

/-- The span of what has been read, if something has. -/
theorem spanBetween_advance (placed : cursor.Placed text) {count : Nat}
    (fewer : (cursor.advance count).rest.length < cursor.rest.length) :
    cursor.spanBetween (cursor.advance count) = ⟨cursor.here, (cursor.advance count).lastStop⟩ := by
  cases count with
  | zero => exact absurd fewer (Nat.lt_irrefl _)
  | succ count =>
    cases more : cursor.rest with
    | nil =>
      rw [advance_of_nil more] at fewer
      exact absurd fewer (Nat.lt_irrefl _)
    | cons token rest =>
      have nonempty := (placed.tokens token (more ▸ List.mem_cons_self)).span.ordered
      have behind : cursor.next.last = some token := by rw [next_of_cons more]
      have moved : cursor.next.position = cursor.position + 1 := by rw [next_of_cons more]
      obtain ⟨last, found, start, stop, position⟩ :=
        placed.next.last_advance behind nonempty count
      have further : ¬(cursor.advance (count + 1)).position ≤ cursor.position := by
        rw [Cursor.advance]
        omega
      change (cursor.advance (count + 1)).last = some last at found
      rw [spanBetween, found]
      simp only [further, if_false, here, lastStop, found, peek_of_cons more]
      rw [Span.cover, Nat.min_eq_left start, Nat.max_eq_right stop]
      rfl

theorem spanBetween_on (placed : cursor.Placed text) (count : Nat) :
    (cursor.spanBetween (cursor.advance count)).On text := by
  by_cases fewer : (cursor.advance count).rest.length < cursor.rest.length
  · rw [placed.spanBetween_advance fewer]
    refine ⟨?_, placed.peek.start, (placed.advance count).stop⟩
    cases count with
    | zero => exact absurd fewer (Nat.lt_irrefl _)
    | succ count =>
      cases more : cursor.rest with
      | nil =>
        rw [advance_of_nil more] at fewer
        exact absurd fewer (Nat.lt_irrefl _)
      | cons token rest =>
        have nonempty := (placed.tokens token (more ▸ List.mem_cons_self)).span.ordered
        have stop := placed.next.lastStop_le_advance count
        rw [lastStop_next more] at stop
        rw [here, peek_of_cons more]
        exact Nat.le_trans nonempty stop
  · have stays : cursor.rest = [] ∨ count = 0 := by
      rw [rest_advance, List.length_drop] at fewer
      cases more : cursor.rest with
      | nil => exact .inl rfl
      | cons token rest =>
        rw [more, List.length_cons] at fewer
        exact .inr (by omega)
    have same : cursor.advance count = cursor := by
      rcases stays with ends | rfl
      · exact advance_of_nil ends count
      · rfl
    rw [same, spanBetween]
    split
    · exact Span.on_emptyAt placed.peek.start
    · rw [if_pos (Nat.le_refl _)]
      exact Span.on_emptyAt placed.peek.start

end Placed

end Cursor

/-! ## Diagnostics -/

/-- Whether everything that a diagnostic points at stands in a text. -/
structure Diagnostic.On (text : List Char) (diagnostic : Diagnostic) : Prop where
  span : diagnostic.span.On text
  fix : ∀ fix ∈ diagnostic.fix, fix.On text
  previous : ∀ name previous, diagnostic.kind = .duplicate name previous → previous.On text

/-- A diagnostic that is not about two definitions points at nothing but its own text and that of
its fix. -/
theorem Diagnostic.on_of_span {text : List Char} {diagnostic : Diagnostic}
    (span : diagnostic.span.On text) (fix : ∀ fix ∈ diagnostic.fix, fix.On text)
    (single : ∀ name previous, diagnostic.kind ≠ .duplicate name previous) : diagnostic.On text :=
  ⟨span, fix, fun name previous same => absurd same (single name previous)⟩

theorem Diagnostic.on_error {text : List Char} {kind : DiagnosticKind} {span : Span}
    (on : span.On text) (single : ∀ name previous, kind ≠ .duplicate name previous) :
    (Diagnostic.error kind span).On text :=
  on_of_span on (by rintro _ ⟨⟩) single

theorem Diagnostic.on_warning {text : List Char} {kind : DiagnosticKind} {span : Span}
    (on : span.On text) (single : ∀ name previous, kind ≠ .duplicate name previous) :
    (Diagnostic.warning kind span).On text :=
  on_of_span on (by rintro _ ⟨⟩) single

theorem Diagnostic.on_errorWithFix {text : List Char} {kind : DiagnosticKind} {span fix : Span}
    (on : span.On text) (fixed : fix.On text)
    (single : ∀ name previous, kind ≠ .duplicate name previous) :
    (Diagnostic.errorWithFix kind span fix).On text :=
  on_of_span on (by rintro _ ⟨⟩; exact fixed) single

namespace Parser

variable {text : List Char}

/-! ## Stages -/

namespace Stage

/-- The offset at which the next token starts. -/
def here (stage : Stage) : Nat :=
  stage.cursor.here

/-- The offset at which the last token that has been read ends. -/
def lastStop (stage : Stage) : Nat :=
  stage.cursor.lastStop

/-- The number of scopes so far. -/
def size (stage : Stage) : Nat :=
  stage.tracker.table.scopes.size

/-- The current scope. -/
def scope (stage : Stage) : ScopeId :=
  stage.tracker.scope

/-- Whether all that is known of the source at a stage stands in the text. -/
structure Placed (text : List Char) (stage : Stage) : Prop where
  cursor : stage.cursor.Placed text
  tracker : stage.tracker.Placed text

/-- How the stages before and after a part of parsing are related: reading goes forward, and all
scopes that are opened are closed again. -/
structure Onward (before after : Stage) : Prop where
  moved : ∃ count, after.cursor = before.cursor.advance count
  grown : before.tracker.Grown after.tracker

theorem Onward.refl (stage : Stage) : Onward stage stage :=
  ⟨⟨0, rfl⟩, .refl _⟩

theorem Onward.trans {first middle last : Stage} (left : Onward first middle)
    (right : Onward middle last) : Onward first last := by
  obtain ⟨count, moved⟩ := left.moved
  obtain ⟨more, goneOn⟩ := right.moved
  exact ⟨⟨count + more, by rw [goneOn, moved, Cursor.advance_add]⟩, left.grown.trans right.grown⟩

variable {stage before after : Stage}

theorem Placed.lastStop_le_here (placed : stage.Placed text) : stage.lastStop ≤ stage.here :=
  placed.cursor.lastStop_le_here

/-- A token that is passed is the text between the two stages. -/
theorem Placed.passes (placed : before.Placed text) {token : Token}
    (passes : before.Passes token after) :
    token.On text ∧ token.span.start = before.here ∧ token.span.stop = after.lastStop := by
  obtain ⟨rest, rfl⟩ := passes
  have more : before.cursor.rest = token :: before.next.rest := rest
  refine ⟨placed.cursor.tokens token (more ▸ List.mem_cons_self), ?_, ?_⟩
  · rw [Stage.here, Cursor.here, Cursor.peek_of_cons more]
  · exact (Cursor.lastStop_next more).symm

namespace Onward

theorem here_le (onward : Onward before after) (placed : before.Placed text) :
    before.here ≤ after.here := by
  obtain ⟨count, moved⟩ := onward.moved
  rw [Stage.here, Stage.here, moved]
  exact placed.cursor.here_le_advance count

theorem lastStop_le (onward : Onward before after) (placed : before.Placed text) :
    before.lastStop ≤ after.lastStop := by
  obtain ⟨count, moved⟩ := onward.moved
  rw [Stage.lastStop, Stage.lastStop, moved]
  exact placed.cursor.lastStop_le_advance count

theorem length_le (onward : Onward before after) : after.rest.length ≤ before.rest.length := by
  obtain ⟨count, moved⟩ := onward.moved
  rw [Stage.rest, Stage.rest, moved, Cursor.rest_advance, List.length_drop]
  exact Nat.sub_le _ _

theorem size_le (onward : Onward before after) : before.size ≤ after.size :=
  onward.grown.table.size

theorem scope_eq (onward : Onward before after) : after.scope = before.scope :=
  onward.grown.scope

/-- The span of what has been read stands in the text. -/
theorem spanBetween_on (onward : Onward before after) (placed : before.Placed text) :
    (before.cursor.spanBetween after.cursor).On text := by
  obtain ⟨count, moved⟩ := onward.moved
  rw [moved]
  exact placed.cursor.spanBetween_on count

/-- The span of what has been read, if something has. -/
theorem spanBetween_eq (onward : Onward before after) (placed : before.Placed text)
    (fewer : after.rest.length < before.rest.length) :
    before.cursor.spanBetween after.cursor = ⟨before.here, after.lastStop⟩ := by
  obtain ⟨count, moved⟩ := onward.moved
  rw [Stage.rest, Stage.rest, moved] at fewer
  rw [Stage.lastStop, moved]
  exact placed.cursor.spanBetween_advance fewer

/-- Nothing lies between stages that are the same but for what is not looked at. -/
theorem of_eq (cursor : after.cursor = before.cursor) (tracker : after.tracker = before.tracker) :
    Onward before after :=
  ⟨⟨0, cursor⟩, tracker ▸ .refl _⟩

end Onward

/-! ## Stretches of text -/

/-- Whether reading has gone on from one placed stage to another. -/
structure Stretch (text : List Char) (before after : Stage) : Prop where
  start : before.Placed text
  stop : after.Placed text
  onward : Onward before after

theorem Stretch.refl (placed : stage.Placed text) : Stretch text stage stage :=
  ⟨placed, placed, .refl stage⟩

theorem Stretch.trans {first middle last : Stage} (left : Stretch text first middle)
    (right : Stretch text middle last) : Stretch text first last :=
  ⟨left.start, right.stop, left.onward.trans right.onward⟩

/-- Whether a span stands in the text that has been read between two stages. -/
structure Covers (text : List Char) (before after : Stage) (span : Span) : Prop where
  on : span.On text
  start : before.here ≤ span.start
  stop : span.stop ≤ after.lastStop

theorem Covers.widen {first before after last : Stage} {span : Span}
    (covers : Covers text before after span) (left : Stretch text first before)
    (right : Stretch text after last) : Covers text first last span where
  on := covers.on
  start := Nat.le_trans (left.onward.here_le left.start) covers.start
  stop := Nat.le_trans covers.stop (right.onward.lastStop_le right.start)

/-- What has been read is the text between the two stages, if it is anything. -/
theorem Stretch.covers (stretch : Stretch text before after)
    (fewer : after.rest.length < before.rest.length) :
    Covers text before after (before.cursor.spanBetween after.cursor) where
  on := stretch.onward.spanBetween_on stretch.start
  start := Nat.le_of_eq (stretch.onward.spanBetween_eq stretch.start fewer ▸ rfl)
  stop := Nat.le_of_eq (stretch.onward.spanBetween_eq stretch.start fewer ▸ rfl)

/-- A token that is passed stands between the two stages. -/
theorem Placed.covers (placed : before.Placed text) {token : Token}
    (passes : before.Passes token after) : Covers text before after token.span :=
  have found := placed.passes passes
  ⟨found.1.span, Nat.le_of_eq found.2.1.symm, Nat.le_of_eq found.2.2⟩

end Stage

/-! ## States -/

/-- Whether all that a state knows of the source stands in the text. -/
structure State.Placed (text : List Char) (state : State) : Prop where
  stage : state.stage.Placed text
  diagnostics : ∀ diagnostic ∈ state.diagnostics.items.toList, diagnostic.On text

namespace State

variable {state : State}

theorem Placed.report (placed : state.Placed text) {diagnostic : Diagnostic}
    (on : diagnostic.On text) :
    ({ state with diagnostics := state.diagnostics.push diagnostic } : State).Placed text where
  stage := placed.stage
  diagnostics := by
    intro other member
    simp only [Diagnostics.push, Array.toList_push, List.mem_append, List.mem_singleton] at member
    rcases member with old | rfl
    · exact placed.diagnostics other old
    · exact on

theorem Placed.append (placed : state.Placed text) {more : List Diagnostic}
    (on : ∀ diagnostic ∈ more, diagnostic.On text) :
    ({ state with diagnostics := state.diagnostics.append more } : State).Placed text where
  stage := placed.stage
  diagnostics := by
    intro other member
    simp only [Diagnostics.append, Array.toList_appendList, List.mem_append] at member
    exact member.elim (placed.diagnostics other) (on other)

end State

end Parser

end CirText
