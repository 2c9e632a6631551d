import CirText.Proofs.Grammar.Leaves
import CirText.Proofs.Parser.Reads
import CirText.Proofs.Scope.Entries

/-!
# Nothing is lost on the way

What is read from tokens accounts for all of them: every token between the stage before and the
stage after is a leaf of what is read, or is taken over in the text of a type or an attribute. Only
commas may be left out. And the names that are defined among the leaves are the entries by which the
table grows.
-/

namespace CirText

/-! ## Leaves and tokens -/

/-- Whether a leaf stands for tokens that must be there. Commas need not. -/
def Piece.isSignificant : Leaf → Bool
  | .blank => false
  | .token kind _ => kind != .punct .comma
  | _ => true

/-- Whether a token is not a comma. -/
def Token.isSignificant (token : Token) : Bool :=
  token.kind != .punct .comma

/-- The text of a token, that of a punctuation mark being known from its kind. -/
def Token.written (token : Token) : String :=
  match token.kind with
  | .punct mark => mark.text
  | _ => token.text

/-- Whether tokens of a class are names of values, labels or symbols. -/
def TokenKind.isName : TokenKind → Bool
  | .value | .label | .symbol => true
  | _ => false

/-- Whether tokens of a class are neither names nor punctuation marks. -/
def TokenKind.isPlain : TokenKind → Bool
  | .punct _ => false
  | kind => !kind.isName

/-- Whether tokens are taken over as the text at a place. -/
structure Embedded (source : List Char) (taken : List Token) (text : String) (span : Span) :
    Prop where
  text : text = String.ofList (span.slice source)
  ends : ∃ first last, taken.head? = some first ∧ taken.getLast? = some last ∧
    span = first.span.cover last.span

/-- Whether a leaf is what stands in the tokens. -/
def Piece.ReadFrom (source : List Char) (taken : List Token) : Leaf → Prop
  | .blank => taken = []
  | .token kind text => kind.isName = false ∧
      ∃ token, taken = [token] ∧ token.kind = kind ∧ token.written = text
  | .reference used => ∃ token, taken = [token] ∧ token.kind = Parser.nameToken used.kind ∧
      token.name = used.name ∧ token.span = used.span
  | .definition defined => ∃ token, taken = [token] ∧
      token.kind = Parser.nameToken defined.kind ∧ token.name = defined.name ∧
      token.span = defined.span
  | .type written => Embedded source taken written.text written.span
  | .attribute value => Embedded source taken value.text value.span

/-- Whether leaves, in some order, account for tokens, commas aside. -/
def Covers (source : List Char) (leaves : List Leaf) (tokens : List Token) : Prop :=
  ∃ parts : List (Leaf × List Token),
    (∀ part ∈ parts, part.1.ReadFrom source part.2 ∧ part.2 <:+: tokens) ∧
    (parts.map Prod.fst).Perm (leaves.filter Piece.isSignificant) ∧
    ((parts.flatMap Prod.snd).filter Token.isSignificant).Perm (tokens.filter Token.isSignificant)

/-- Commas and blanks between items do not matter. -/
theorem filter_commaed {R : Type} (leaves : R → List Leaf) (items : List (List (Piece R))) :
    ((Piece.commaed items).flatMap (Piece.flatten leaves)).filter Piece.isSignificant =
      (items.flatMap (·.flatMap (Piece.flatten leaves))).filter Piece.isSignificant := by
  induction items with
  | nil => rfl
  | cons item items ih =>
    cases items with
    | nil => simp
    | cons next items =>
      rw [Piece.commaed_cons_cons, List.flatMap_append, List.filter_append]
      refine (congrArg (_ ++ ·) ih).trans ?_
      rw [← List.filter_append]
      rfl

theorem filter_arrange {R : Type} (leaves : R → List Leaf) (separator : Separator)
    (items : List (List (Piece R))) :
    ((Piece.arrange separator items).flatMap (Piece.flatten leaves)).filter Piece.isSignificant =
      (items.flatMap (·.flatMap (Piece.flatten leaves))).filter Piece.isSignificant := by
  cases separator with
  | comma => exact filter_commaed leaves items
  | blank =>
    induction items with
    | nil => rfl
    | cons item items ih =>
      cases items with
      | nil => simp [Piece.arrange]
      | cons next items =>
        rw [Piece.arrange] at ih ⊢
        rw [List.intercalate_cons_cons, List.append_assoc, List.flatMap_append, List.filter_append]
        refine (congrArg (_ ++ ·) ih).trans ?_
        rw [← List.filter_append]
        rfl

theorem mentions_filter (leaves : List Leaf) :
    mentions (leaves.filter Piece.isSignificant) = mentions leaves := by
  rw [mentions_eq_filterMap, mentions_eq_filterMap, List.filterMap_filter]
  congr 1
  funext leaf
  cases leaf with
  | token kind text => simp [Piece.mention?]
  | _ => rfl

namespace Covers

variable {source : List Char} {leaves more : List Leaf} {tokens others : List Token}

theorem nil (source : List Char) : Covers source [] [] :=
  ⟨[], by rintro _ ⟨⟩, .refl _, .refl _⟩

theorem append (left : Covers source leaves tokens) (right : Covers source more others) :
    Covers source (leaves ++ more) (tokens ++ others) := by
  obtain ⟨parts, read, leaves, tokens⟩ := left
  obtain ⟨rest, readRest, more, others⟩ := right
  refine ⟨parts ++ rest, ?_, ?_, ?_⟩
  · intro part member
    rcases List.mem_append.1 member with here | there
    · obtain ⟨readFrom, within⟩ := read part here
      exact ⟨readFrom, within.trans (List.prefix_append _ _).isInfix⟩
    · obtain ⟨readFrom, within⟩ := readRest part there
      exact ⟨readFrom, within.trans (List.suffix_append _ _).isInfix⟩
  · rw [List.map_append, List.filter_append]
    exact leaves.append more
  · rw [List.flatMap_append, List.filter_append, List.filter_append]
    exact tokens.append others

theorem congr (h : Covers source leaves tokens)
    (same : (leaves.filter Piece.isSignificant).Perm (more.filter Piece.isSignificant)) :
    Covers source more tokens := by
  obtain ⟨parts, read, leaves, tokens⟩ := h
  exact ⟨parts, read, leaves.trans same, tokens⟩

/-- One leaf that must be there. -/
theorem leaf {one : Leaf} (significant : one.isSignificant = true)
    (read : one.ReadFrom source tokens) : Covers source [one] tokens := by
  refine ⟨[(one, tokens)], ?_, ?_, ?_⟩
  · intro part member
    rw [List.mem_singleton.1 member]
    exact ⟨read, List.infix_refl _⟩
  · rw [List.filter_singleton, significant]
    exact .refl _
  · rw [List.flatMap_singleton]

/-- Tokens that need not be there. -/
theorem insignificant (none : ∀ token ∈ tokens, token.isSignificant = false) :
    Covers source [] tokens := by
  have dropped : tokens.filter Token.isSignificant = [] := by
    rw [List.filter_eq_nil_iff]
    intro token member
    rw [none token member]
    exact Bool.false_ne_true
  refine ⟨[], by rintro _ ⟨⟩, .refl _, ?_⟩
  rw [dropped]
  exact .refl _

end Covers

/-! ## Positions of cursors -/

namespace Cursor

theorem position_next {cursor : Cursor} {token : Token} {rest : List Token}
    (more : cursor.rest = token :: rest) : cursor.next.position = cursor.position + 1 := by
  simp only [next, more]

theorem last_next {cursor : Cursor} {token : Token} {rest : List Token}
    (more : cursor.rest = token :: rest) : cursor.next.last = some token := by
  simp only [next, more]

/-- The last of the tokens that a cursor has moved past is the one before it. -/
theorem advance_spec {taken : List Token} {last : Token} (ends : taken.getLast? = some last)
    {cursor : Cursor} {rest : List Token} (more : cursor.rest = taken ++ rest) :
    (cursor.advance taken.length).last = some last ∧
      cursor.position < (cursor.advance taken.length).position := by
  induction taken generalizing cursor with
  | nil => cases ends
  | cons token taken ih =>
    have next : cursor.next.rest = taken ++ rest := by
      rw [rest_next, more]
      rfl
    rw [List.length_cons, advance]
    cases taken with
    | nil =>
      cases ends
      have passed := position_next more
      exact ⟨last_next more, by rw [List.length_nil, advance, passed]; exact Nat.lt_succ_self _⟩
    | cons second taken =>
      rw [List.getLast?_cons_cons] at ends
      have step := ih ends next
      rw [position_next more] at step
      exact ⟨step.1, Nat.lt_of_succ_lt step.2⟩

end Cursor

namespace Parser

variable {R α β : Type} {source : List Char} {before middle after : Stage}

/-- Text that is taken over is that of the tokens read. -/
theorem Stage.Embeds.embedded {read : (tokens : List Token) → Reader.Reading tokens}
    {text : String} {span : Span} (embeds : before.Embeds source read text span after) :
    ∃ taken, before.rest = taken ++ after.rest ∧ Embedded source taken text span := by
  obtain ⟨⟨rest, shorter⟩, _, rfl, rfl, taken⟩ := embeds
  let count := before.rest.length - rest.length
  have some : 0 < count := Nat.sub_pos_of_lt shorter
  have inside : count ≤ before.rest.length := Nat.sub_le _ _
  have split : before.cursor.rest = before.rest.take count ++ before.rest.drop count :=
    (List.take_append_drop count before.rest).symm
  have length : (before.rest.take count).length = count := List.length_take_of_le inside
  have nonempty : before.rest.take count ≠ [] := by
    apply List.ne_nil_of_length_pos
    rw [length]
    exact some
  have ends := List.getLast?_eq_some_getLast nonempty
  have moved := Cursor.advance_spec ends split
  rw [length] at moved
  refine ⟨before.rest.take count, ?_, taken, ?_⟩
  · change before.rest = _ ++ (before.cursor.advance count).rest
    rw [Cursor.rest_advance]
    exact split
  · refine ⟨_, _, List.head?_eq_some_head nonempty, ends, ?_⟩
    change before.cursor.spanBetween (before.cursor.advance count) = _
    have first : before.cursor.peek = (before.rest.take count).head nonempty := by
      rw [Cursor.peek, split, List.headD_eq_head?_getD, List.head?_append_of_ne_nil _ nonempty,
        List.head?_eq_some_head nonempty]
      rfl
    rw [Cursor.spanBetween, moved.1]
    simp only [if_neg (Nat.not_le_of_lt moved.2), first]

/-! ## Passages -/

theorem Stage.Passes.tracker {token : Token} (passes : before.Passes token after) :
    after.tracker = before.tracker := by
  rw [passes.2]
  rfl

/-- Whether leaves account for the tokens between two stages. -/
def Consumes (source : List Char) (before : Stage) (leaves : List Leaf) (after : Stage) : Prop :=
  ∃ tokens, before.rest = tokens ++ after.rest ∧ Covers source leaves tokens

/-- Whether definitions are the new entries of the table between two stages. -/
def Grows (before : Stage) (definitions : List Definition) (after : Stage) : Prop :=
  before.tracker.Fits → after.tracker.Fits ∧
    after.tracker.table.entries.Perm (before.tracker.table.entries ++ definitions)

/-- Whether leaves account for what happens between two stages. -/
structure Passage (source : List Char) (before : Stage) (leaves : List Leaf) (after : Stage) :
    Prop where
  consumes : Consumes source before leaves after
  grows : Grows before ((mentions leaves).filterMap Mention.definition?) after

namespace Consumes

variable {leaves more : List Leaf}

theorem refl (source : List Char) (stage : Stage) : Consumes source stage [] stage :=
  ⟨[], rfl, .nil source⟩

theorem trans (left : Consumes source before leaves middle)
    (right : Consumes source middle more after) :
    Consumes source before (leaves ++ more) after := by
  obtain ⟨tokens, rest, covers⟩ := left
  obtain ⟨others, last, coversMore⟩ := right
  refine ⟨tokens ++ others, ?_, covers.append coversMore⟩
  rw [rest, last, List.append_assoc]

theorem congr (h : Consumes source before leaves after)
    (same : (leaves.filter Piece.isSignificant).Perm (more.filter Piece.isSignificant)) :
    Consumes source before more after := by
  obtain ⟨tokens, rest, covers⟩ := h
  exact ⟨tokens, rest, covers.congr same⟩

/-- The tokens still to be read are what matters. -/
theorem of_rest {earlier later : Stage} (h : Consumes source before leaves after)
    (first : earlier.rest = before.rest) (last : later.rest = after.rest) :
    Consumes source earlier leaves later := by
  obtain ⟨tokens, rest, covers⟩ := h
  exact ⟨tokens, by rw [first, last, rest], covers⟩

theorem leaf {one : Leaf} {token : Token} (significant : one.isSignificant = true)
    (rest : before.rest = token :: after.rest) (read : one.ReadFrom source [token]) :
    Consumes source before [one] after :=
  ⟨[token], rest, .leaf significant read⟩

theorem token {token : Token} {kind : TokenKind} {text : String}
    (rest : before.rest = token :: after.rest) (sameKind : token.kind = kind)
    (plain : kind.isName = false) (sameText : token.written = text) :
    Consumes source before [.token kind text] after := by
  cases significant : (Piece.token kind text : Leaf).isSignificant with
  | true => exact leaf significant rest ⟨plain, token, rfl, sameKind, sameText⟩
  | false =>
    have dropped : token.isSignificant = false := by
      rw [Token.isSignificant, sameKind]
      exact significant
    refine ⟨[token], rest, (Covers.insignificant ?_).congr ?_⟩
    · intro other member
      rw [List.mem_singleton.1 member]
      exact dropped
    · rw [List.filter_singleton, significant]
      exact .refl _

theorem punct {token : Token} {mark : Punct} (rest : before.rest = token :: after.rest)
    (isMark : token.isPunct mark = true) : Consumes source before [.punct mark] after := by
  have kind : token.kind = .punct mark := beq_iff_eq.1 isMark
  apply Consumes.token rest kind rfl
  rw [Token.written, kind]

theorem word {token : Token} {text : String} (rest : before.rest = token :: after.rest)
    (isWord : token.isWord text = true) : Consumes source before [.word text] after := by
  have both := Bool.and_eq_true_iff.1 isWord
  have kind : token.kind = .identifier := beq_iff_eq.1 both.1
  apply Consumes.token rest kind rfl
  rw [Token.written, kind]
  exact beq_iff_eq.1 both.2

/-- A comma may be passed over. -/
theorem pastComma (stage : Stage) : Consumes source stage [] stage.pastComma := by
  unfold Stage.pastComma
  split
  · rename_i here
    have passes := ((Stage.passes_iff (·.isPunct .comma) fun _ => rfl).1 ⟨here, rfl, rfl⟩).2
    exact (punct passes.1 here).congr (.refl _)
  · exact refl source stage

theorem embeds {one : Leaf} {read : (tokens : List Token) → Reader.Reading tokens}
    {text : String} {span : Span} (embeds : before.Embeds source read text span after)
    (significant : one.isSignificant = true)
    (same : ∀ taken, one.ReadFrom source taken ↔ Embedded source taken text span) :
    Consumes source before [one] after := by
  obtain ⟨taken, rest, embedded⟩ := embeds.embedded
  exact ⟨taken, rest, .leaf significant ((same taken).2 embedded)⟩

end Consumes

namespace Grows

variable {definitions others : List Definition}

theorem refl (stage : Stage) : Grows stage [] stage := by
  intro fits
  rw [List.append_nil]
  exact ⟨fits, .refl _⟩

theorem trans (left : Grows before definitions middle) (right : Grows middle others after) :
    Grows before (definitions ++ others) after := by
  intro fits
  obtain ⟨fits, entries⟩ := left fits
  obtain ⟨fits, later⟩ := right fits
  refine ⟨fits, later.trans ?_⟩
  rw [← List.append_assoc]
  exact entries.append_right _

theorem congr (h : Grows before definitions after) (same : definitions.Perm others) :
    Grows before others after := by
  intro fits
  obtain ⟨fits, entries⟩ := h fits
  exact ⟨fits, entries.trans (same.append_left _)⟩

/-- Only the tracker matters. -/
theorem of_tracker {earlier later : Stage} (h : Grows before definitions after)
    (first : earlier.tracker = before.tracker) (last : later.tracker = after.tracker) :
    Grows earlier definitions later := by
  unfold Grows
  rw [first, last]
  exact h

theorem same (tracker : after.tracker = before.tracker) : Grows before [] after :=
  (refl before).of_tracker rfl tracker

theorem next (stage : Stage) : Grows stage [] stage.next :=
  same rfl

theorem pastComma (stage : Stage) : Grows stage [] stage.pastComma := by
  unfold Stage.pastComma
  split
  · exact next stage
  · exact refl stage

theorem defines {kind : NameKind} {found : Token} {definition : Definition}
    (defines : before.Defines kind found definition after) : Grows before [definition] after := by
  obtain ⟨_, named, rfl⟩ := defines
  intro fits
  refine ⟨fits.insert definition, ?_⟩
  have home : definition.scope < before.tracker.table.scopes.size := by
    rw [named]
    exact fits.home_lt kind
  exact (SymbolTable.entries_insert home).trans (List.perm_append_singleton _ _).symm

theorem refers {kind : NameKind} {used : Reference} (refers : before.Refers kind used after) :
    Grows before [] after := by
  obtain ⟨found, _, _, _, rfl⟩ := refers
  intro fits
  refine ⟨fits.refer kind found.name found.span, ?_⟩
  rw [Tracker.table_refer, List.append_nil]

theorem inScope {inside : Stage}
    (h : Grows { before with tracker := before.tracker.push } definitions inside) :
    Grows before definitions { inside with tracker := inside.tracker.pop.1 } := by
  intro fits
  obtain ⟨fits, entries⟩ := h fits.push
  refine ⟨fits.pop, ?_⟩
  have opened : before.tracker.push.table.entries = before.tracker.table.entries :=
    SymbolTable.entries_opened _ _
  rw [Tracker.table_pop, ← opened]
  exact entries

end Grows

namespace Passage

variable {leaves more : List Leaf}

theorem refl (source : List Char) (stage : Stage) : Passage source stage [] stage :=
  ⟨.refl source stage, .refl stage⟩

theorem trans (left : Passage source before leaves middle)
    (right : Passage source middle more after) : Passage source before (leaves ++ more) after where
  consumes := left.consumes.trans right.consumes
  grows := by
    rw [mentions_append, List.filterMap_append]
    exact left.grows.trans right.grows

theorem congr (h : Passage source before leaves after)
    (same : (leaves.filter Piece.isSignificant).Perm (more.filter Piece.isSignificant)) :
    Passage source before more after where
  consumes := h.consumes.congr same
  grows := by
    apply h.grows.congr
    apply List.Perm.filterMap
    rw [← mentions_filter leaves, ← mentions_filter more, mentions_eq_filterMap,
      mentions_eq_filterMap]
    exact same.filterMap _

/-- Leaves that name nothing, between stages with the same scopes. -/
theorem unnamed (consumes : Consumes source before leaves after) (none : mentions leaves = [])
    (tracker : after.tracker = before.tracker) : Passage source before leaves after where
  consumes := consumes
  grows := by
    rw [none]
    exact .same tracker

theorem punct {token : Token} {mark : Punct} (isMark : token.isPunct mark = true)
    (passes : before.Passes token after) : Passage source before [.punct mark] after :=
  unnamed (.punct passes.1 isMark) rfl passes.tracker

theorem word {token : Token} {text : String} (isWord : token.isWord text = true)
    (passes : before.Passes token after) : Passage source before [.word text] after :=
  unnamed (.word passes.1 isWord) rfl passes.tracker

/-- A token whose text is kept as written. -/
theorem lexeme {token : Token} {kind : TokenKind} (sameKind : token.kind = kind)
    (plain : kind.isPlain = true) (passes : before.Passes token after) :
    Passage source before [.token kind token.text] after := by
  have notName : kind.isName = false := by
    cases kind with
    | value => cases plain
    | label => cases plain
    | symbol => cases plain
    | _ => rfl
  refine unnamed (.token passes.1 sameKind notName ?_) rfl passes.tracker
  rw [Token.written, sameKind]
  cases kind with
  | punct mark => cases plain
  | _ => rfl

theorem pastComma (stage : Stage) : Passage source stage [] stage.pastComma :=
  ⟨.pastComma stage, .pastComma stage⟩

theorem refers {kind : NameKind} {used : Reference} (refers : before.Refers kind used after) :
    Passage source before [.reference used] after where
  grows := .refers refers
  consumes := by
    obtain ⟨found, isName, rest, rfl, rfl⟩ := refers
    have same : (before.tracker.refer kind found.name found.span).1 =
        ⟨kind, found.name, found.span, before.tracker.scope⟩ := by
      cases kind <;> rfl
    apply Consumes.leaf rfl rest
    rw [same]
    exact ⟨found, rfl, isName, rfl, rfl⟩

/-- A name that is defined once what follows it has been read. -/
theorem binds {kind : NameKind} {found : Token} {definition : Definition} {last : Stage}
    (isName : found.kind = nameToken kind) (passes : before.Passes found middle)
    (inner : Passage source middle leaves last)
    (defines : last.Defines kind found definition after) :
    Passage source before (.definition definition :: leaves) after where
  consumes := by
    have named : (Piece.definition definition : Leaf).ReadFrom source [found] := by
      obtain ⟨_, rfl, _⟩ := defines
      exact ⟨found, rfl, isName, rfl, rfl⟩
    have rest : last.rest = after.rest := by
      obtain ⟨_, _, rfl⟩ := defines
      rfl
    have all := (Consumes.leaf rfl passes.1 named).trans inner.consumes
    exact all.of_rest rfl rest.symm
  grows := by
    have moved : Grows before [] middle := .same passes.tracker
    have all := moved.trans (inner.grows.trans (.defines defines))
    exact all.congr (List.perm_append_singleton _ _)

theorem defines {kind : NameKind} {found : Token} {definition : Definition}
    (isName : found.kind = nameToken kind) (passes : before.Passes found middle)
    (defines : middle.Defines kind found definition after) :
    Passage source before [.definition definition] after :=
  binds isName passes (refl source middle) defines

/-- What is read in a scope of its own. -/
theorem inScope {inside : Stage}
    (h : Passage source { before with tracker := before.tracker.push } leaves inside) :
    Passage source before leaves { inside with tracker := inside.tracker.pop.1 } where
  consumes := h.consumes.of_rest rfl rfl
  grows := h.grows.inScope

theorem typeReads {written : TypeText} (reads : TypeReads source before written after) :
    Passage source before [.type written] after := by
  refine unnamed (.embeds reads rfl fun taken => .rfl) rfl ?_
  obtain ⟨_, _, rfl, _⟩ := reads
  rfl

theorem attributeReads {form : AttributeForm} {value : AttributeText}
    (reads : AttributeReads form source before value after) :
    Passage source before [.attribute value] after := by
  refine unnamed (.embeds reads.2 rfl fun taken => .rfl) rfl ?_
  obtain ⟨_, _, _, rfl, _⟩ := reads
  rfl

theorem namedAttributeReads {value : AttributeText}
    (reads : NamedAttributeReads source before value after) :
    Passage source before [.attribute value] after := by
  unfold NamedAttributeReads at reads
  split at reads
  · exact attributeReads reads
  · exact attributeReads reads.2

theorem trailingAttributeReads {found : Option AttributeText}
    (reads : TrailingAttributeReads source before found after) :
    Passage source before (found.toList.flatMap fun value => [.blank, .attribute value]) after := by
  have spaced : ∀ {value}, Passage source before [.attribute value] after →
      Passage source before [.blank, .attribute value] after :=
    fun passage => passage.congr (.refl _)
  unfold TrailingAttributeReads at reads
  split at reads
  · obtain ⟨value, reads, rfl⟩ := reads
    exact spaced (attributeReads reads)
  · split at reads
    · obtain ⟨value, reads, rfl⟩ := reads
      exact spaced (attributeReads reads)
    · obtain ⟨rfl, rfl⟩ := reads
      exact refl source _

/-! ## Lists -/

section Lists

variable {item : Meaning α} {leavesOf : α → List Leaf}
  (each : ∀ {before after : Stage} {a : α}, item source before a after →
    Passage source before (leavesOf a) after)

include each

/-- Items each of which comes after a comma. -/
theorem tail {items : List α} (reads : TailReads item source before items after) :
    Passage source before (items.flatMap leavesOf) after := by
  induction reads with
  | nil => exact refl source _
  | cons comma first rest ih =>
    rename_i before middle after a items
    have passes := ((Stage.passes_iff (·.isPunct .comma) fun _ => rfl).1 ⟨comma, rfl, rfl⟩).2
    exact (punct comma passes).trans ((each first).trans ih) |>.congr (.refl _)

theorem separated {found : α × List α} (reads : SeparatedReads item source before found after) :
    Passage source before ((found.1 :: found.2).flatMap leavesOf) after := by
  obtain ⟨middle, first, rest⟩ := reads
  exact (each first).trans (tail each rest)

theorem listed {items : List α} (reads : ListedReads item source before items after) :
    Passage source before (items.flatMap leavesOf) after := by
  cases reads with
  | nil => exact refl source _
  | cons inside all => exact separated each all

/-- Items of which the last may be an ellipsis. -/
theorem ellipsis {found : List α × Bool} (reads : EllipsisReads item source before found after) :
    Passage source before
      (found.1.flatMap leavesOf ++ if found.2 then [.punct .ellipsis] else []) after := by
  induction reads with
  | ellipsis here =>
    have passes := ((Stage.passes_iff (·.isPunct .ellipsis) fun _ => rfl).1 ⟨here, rfl, rfl⟩).2
    exact punct here passes
  | last absent only ends =>
    have passage := each only
    simpa using passage
  | more absent first comma rest ih =>
    rename_i before middle after a items ellipsis
    have passes := ((Stage.passes_iff (·.isPunct .comma) fun _ => rfl).1 ⟨comma, rfl, rfl⟩).2
    have all := (each first).trans ((punct comma passes).trans ih)
    apply all.congr
    simp only [List.flatMap_cons, List.append_assoc, List.filter_append]
    exact .refl _

theorem listedWithEllipsis {found : List α × Bool}
    (reads : ListedWithEllipsisReads item source before found after) :
    Passage source before
      (found.1.flatMap leavesOf ++ if found.2 then [.punct .ellipsis] else []) after := by
  unfold ListedWithEllipsisReads at reads
  split at reads
  · obtain ⟨rfl, rfl⟩ := reads
    exact refl source _
  · exact ellipsis each reads

/-- Items up to a closing bracket. -/
theorem bracketed {separator : Separator} {items : List α}
    (reads : BracketedReads separator item source before items after) :
    Passage source before (items.flatMap leavesOf ++ [.punct .rightBracket]) after := by
  induction reads with
  | nil ends =>
    have passes := ((Stage.passes_iff (·.isPunct .rightBracket) fun _ => rfl).1 ⟨ends, rfl, rfl⟩).2
    exact punct ends passes
  | cons inside more first rest ih =>
    rename_i before middle after a items
    have separatorPassed : Passage source middle [] (middle.pastSeparator separator) := by
      cases separator with
      | comma => exact pastComma middle
      | blank => exact refl source middle
    have all := (each first).trans (separatorPassed.trans ih)
    simpa using all

theorem repeated {next : Guard} {items : List α}
    (reads : RepeatedReads next item source before items after) :
    Passage source before (items.flatMap leavesOf) after := by
  induction reads with
  | nil => exact refl source _
  | cons goesOn first rest ih =>
    rename_i before middle after a items
    have all := (each first).trans ((pastComma middle).trans ih)
    simpa using all

end Lists

/-! ## Modifiers -/

theorem argumentReads {kind : ArgumentKind} {argument : Argument}
    (reads : ArgumentReads kind source before argument after) :
    kind.Takes argument ∧ Passage source before [argument.piece kind] after := by
  cases kind with
  | word =>
    obtain ⟨found, ⟨sameKind, passes⟩, rfl⟩ := reads
    exact ⟨trivial, lexeme sameKind rfl passes⟩
  | integer =>
    obtain ⟨found, ⟨sameKind, passes⟩, rfl⟩ := reads
    exact ⟨trivial, lexeme sameKind rfl passes⟩
  | «symbol» =>
    obtain ⟨used, noted, rfl⟩ := reads
    have kindEq : used.kind = .symbol := by
      obtain ⟨found, _, _, rfl, _⟩ := noted
      rfl
    exact ⟨kindEq, refers noted⟩
  | «attribute» =>
    obtain ⟨value, reads, rfl⟩ := reads
    exact ⟨trivial, namedAttributeReads reads⟩

theorem modifierArgumentReads {rule : ModifierRule} {argument : Option Argument}
    (reads : ModifierArgumentReads rule.argument source before argument after) :
    ArgumentSyntax.Admits rule.argument argument ∧
      Passage source before (Modifier.pieces ⟨rule, argument⟩).tail.tail after := by
  unfold ModifierArgumentReads at reads
  cases syntaxOf : rule.argument with
  | none =>
    rw [syntaxOf] at reads
    obtain ⟨rfl, rfl⟩ := reads
    exact ⟨trivial, refl source _⟩
  | some form =>
    simp only [syntaxOf] at reads
    split at reads
    · rename_i leftOut
      obtain ⟨rfl, rfl⟩ := reads
      exact ⟨(Bool.and_eq_true_iff.1 leftOut).1, refl source _⟩
    · obtain ⟨opening, first, ⟨isOpening, passes⟩, value, last, reads, closing,
        ⟨isClosing, passesLast⟩, rfl⟩ := reads
      obtain ⟨takes, passage⟩ := argumentReads reads
      have all := (punct isOpening passes).trans (passage.trans (punct isClosing passesLast))
      refine ⟨takes, ?_⟩
      simp only [Modifier.pieces, syntaxOf]
      exact all

/-- The modifiers that are read are a run of the table, and they account for what is read. -/
theorem modifiersRead {rules : List ModifierRule} {earlier modifiers : List Modifier}
    (reads : ModifiersRead rules source earlier before modifiers after)
    (run : ModifierTable.Run rules earlier) :
    ModifierTable.Run rules modifiers ∧ ∃ more, modifiers = earlier ++ more ∧
      Passage source before (more.flatMap Modifier.pieces) after := by
  induction reads with
  | nil ends => exact ⟨run, [], (List.append_nil _).symm, refl source _⟩
  | cons keyword first free rest ih =>
    rename_i earlier modifiers before middle after rule argument
    obtain ⟨admits, passage⟩ := modifierArgumentReads first
    have grown := run.concat (List.mem_of_find?_eq_some keyword) admits free
    obtain ⟨runs, more, rfl, later⟩ := ih grown
    have here := List.find?_some keyword
    have passes := ((Stage.passes_iff (·.isWord rule.keyword) fun _ => rfl).1 ⟨here, rfl, rfl⟩).2
    refine ⟨runs, ⟨rule, argument⟩ :: more, by rw [List.append_assoc]; rfl, ?_⟩
    have all := (word here passes).trans (passage.trans later)
    exact all.congr (.refl _)

end Passage

end Parser

/-- What a grammar reads is a value that it builds. -/
theorem Grammar.Reads.builds {R α : Type} {region : RegionKind → Bool → Parser.Meaning R}
    {source : List Char} {before after : Parser.Stage} {grammar : Grammar R α} {a : α}
    (reads : grammar.Reads region source before a after) : grammar.Builds a := by
  cases grammar with
  | view as inner =>
    obtain ⟨value, _, rfl⟩ := reads
    exact ⟨value, rfl⟩
  | _ => trivial

end CirText
