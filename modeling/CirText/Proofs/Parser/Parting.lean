import CirText.Proofs.Reread.Lists

/-!
# Source texts that part

Two source texts may be the same up to a place and go on with different tokens from there. What is
read before that place in the one is read in the other as well, as long as nothing that comes behind
it there is taken for more of it.
-/

namespace CirText

open CirText.Reader

/-! ## Pieces of text that starts alike -/

namespace Text

variable {shared : List Char}

theorem dropBytes?_append (tail : List Char) {count : Nat} (inside : count ≤ byteSize shared) :
    ∃ left, dropBytes? shared count = left ∧ dropBytes? (shared ++ tail) count =
      left.map (· ++ tail) ∧ ∀ rest ∈ left, count + byteSize rest = byteSize shared := by
  induction shared generalizing count with
  | nil =>
    obtain rfl : count = 0 := Nat.le_zero.1 inside
    exact ⟨some [], by simp [dropBytes?], by simp [dropBytes?], by simp [byteSize]⟩
  | cons c shared ih =>
    cases count with
    | zero => exact ⟨some (c :: shared), by simp [dropBytes?], by simp [dropBytes?], by simp⟩
    | succ count =>
      rw [List.cons_append, dropBytes?, dropBytes?]
      split
      · rename_i fits
        have fewer : count + 1 - c.utf8Size ≤ byteSize shared := by
          rw [byteSize] at inside
          omega
        obtain ⟨left, here, there, sizes⟩ := ih fewer
        refine ⟨left, here, there, fun rest member => ?_⟩
        have size := sizes rest member
        rw [byteSize]
        omega
      · exact ⟨none, rfl, rfl, by rintro _ ⟨⟩⟩

theorem takeBytes?_append (tail : List Char) {count : Nat} (inside : count ≤ byteSize shared) :
    takeBytes? (shared ++ tail) count = takeBytes? shared count := by
  induction shared generalizing count with
  | nil =>
    obtain rfl : count = 0 := Nat.le_zero.1 inside
    simp [takeBytes?]
  | cons c shared ih =>
    cases count with
    | zero => simp [takeBytes?]
    | succ count =>
      rw [List.cons_append, takeBytes?, takeBytes?]
      split
      · have fewer : count + 1 - c.utf8Size ≤ byteSize shared := by
          rw [byteSize] at inside
          omega
        rw [ih fewer]
      · rfl

/-- A piece of the start of a text does not depend on how the text goes on. -/
theorem slice_append_left (tail : List Char) {start stop : Nat} (inside : stop ≤ byteSize shared) :
    slice (shared ++ tail) start stop = slice shared start stop := by
  unfold slice
  split
  · rename_i ordered
    obtain ⟨left, here, there, sizes⟩ := dropBytes?_append tail (ordered.trans inside)
    rw [here, there]
    cases left with
    | none => rfl
    | some rest =>
      have size := sizes rest rfl
      rw [Option.map_some, Option.bind_some, Option.bind_some, takeBytes?_append tail (by omega)]
  · rfl

end Text

/-! ## Tokens that go on alike up to a place -/

namespace Reader

variable {behind beyond : List Token}

theorem Echo.refl_append (taken : List Token) :
    Echo behind beyond (taken ++ behind) (taken ++ beyond) := by
  induction taken with
  | nil => exact .here
  | cons token taken ih => exact .cons rfl rfl ih

theorem Echo.length_eq {tokens copy : List Token} (echo : Echo behind beyond tokens copy) :
    tokens.length + beyond.length = copy.length + behind.length := by
  induction echo with
  | here => exact Nat.add_comm _ _
  | cons _ _ _ ih =>
    rw [List.length_cons, List.length_cons]
    omega

/-- What is left of the same tokens is the same up to where they part. -/
theorem Echo.left_eq {took left more : List Token}
    (echo : Echo behind beyond (left ++ behind) more) (within : more <:+ took ++ left ++ beyond) :
    more = left ++ beyond := by
  have lengths := echo.length_eq
  have other : left ++ beyond <:+ took ++ left ++ beyond := by
    rw [List.append_assoc]
    exact List.suffix_append _ _
  refine List.IsSuffix.eq_of_length (List.suffix_of_suffix_length_le within other ?_) ?_ <;>
    simp only [List.length_append] at lengths ⊢ <;> omega

end Reader

/-- Items up to a closing bracket are never without a token. -/
theorem Parser.BracketedReads.fewer {α : Type} {separator : Separator} {item : Meaning α}
    {source : List Char} {before after : Stage} {items : List α}
    (reads : BracketedReads separator item source before items after)
    (leads : ∀ source before a after, item source before a after → before.Leads after) :
    after.rest.length < before.rest.length := by
  induction reads with
  | nil ends => exact Stage.length_next_lt ends
  | @cons before middle after a items _ _ first _ ih =>
    have toNext := (leads _ _ _ _ first).trans (middle.leads_pastSeparator separator)
    exact Nat.lt_of_lt_of_le ih toNext.length_le

/-! ## Where source texts part -/

/-- Whether tokens start as an operation does, with a keyword or with the name of a result. -/
def StartsOperation (tokens : List Token) : Prop :=
  ∃ token rest, tokens = token :: rest ∧ (token.kind = .keyword ∨ token.kind = .value)

/-- Whether tokens start with what may come behind an operation, if they are not empty. -/
def FollowsOperation (tokens : List Token) : Prop :=
  ∀ token ∈ tokens.head?, token.kind ∈ [.keyword, .value, .label, .punct .rightBrace]

theorem StartsOperation.follows {tokens : List Token} (starts : StartsOperation tokens) :
    FollowsOperation tokens := by
  obtain ⟨token, rest, rfl, kind⟩ := starts
  rintro _ ⟨rfl⟩
  rcases kind with kind | kind <;> simp [kind]

theorem FollowsOperation.startsWith {tokens : List Token} (follows : FollowsOperation tokens)
    {mark : Punct} (other : mark ≠ .rightBrace) : startsWith mark tokens = false := by
  cases tokens with
  | nil => rfl
  | cons token tokens =>
    have kinds := follows token rfl
    simp only [List.mem_cons, List.not_mem_nil, or_false] at kinds
    rcases kinds with kind | kind | kind | kind <;>
      simp [Reader.startsWith, Token.isPunct, kind, other.symm]

/-- Whether nothing that may come behind an operation satisfies the condition. -/
def Guard.isForeign (guard : Guard) : Bool :=
  guard.class_ ∉ [.keyword, .value, .label, .punct .rightBrace, .endOfInput]

theorem FollowsOperation.holds {cursor : Cursor} (follows : FollowsOperation cursor.rest)
    {guard : Guard} (foreign : guard.isForeign = true) : guard.holds cursor = false := by
  have unlike : guard.class_ ∉ [TokenKind.keyword, .value, .label, .punct .rightBrace,
      .endOfInput] :=
    of_decide_eq_true foreign
  by_contra holds
  have class_ := Guard.class_of_holds (Bool.eq_true_of_not_eq_false holds)
  refine unlike (class_ ▸ ?_)
  cases more : cursor.rest with
  | nil => simp [Cursor.peek, more, Cursor.endToken, Token.endAt]
  | cons token tokens =>
    have kinds := follows token (by rw [more]; rfl)
    rw [Cursor.peek_of_cons more]
    simp only [List.mem_cons, List.not_mem_nil, or_false] at kinds ⊢
    rcases kinds with kind | kind | kind | kind <;> simp [kind]

/-- Whether two texts go on with what may come behind an operation, or with a brace that is opened
in both. -/
inductive Turns (behind beyond : List Token) : Prop where
  /-- Something that may come behind an operation. -/
  | operation (here : FollowsOperation behind) (there : FollowsOperation beyond)
  /-- An opening brace. -/
  | brace (here : startsWith .leftBrace behind = true) (there : startsWith .leftBrace beyond = true)

namespace Turns

variable {behind beyond : List Token}

/-- No type goes on where the texts part. -/
theorem sameMark (turns : Turns behind beyond) : SameMark behind beyond := by
  cases turns with
  | operation here there =>
    constructor <;> rw [here.startsWith (by decide), there.startsWith (by decide)]
  | brace here there =>
    match behind, beyond, here, there with
    | token :: _, other :: _, here, there =>
      have kind : token.kind = .punct .leftBrace := beq_iff_eq.1 here
      have otherKind : other.kind = .punct .leftBrace := beq_iff_eq.1 there
      constructor <;> simp [Reader.startsWith, Token.isPunct, kind, otherKind]

/-- What comes next if tokens start with an opening brace. -/
theorem kind_of_brace {cursor : Cursor} (opens : startsWith .leftBrace cursor.rest = true) :
    cursor.peek.kind = .punct .leftBrace := by
  unfold Cursor.peek
  cases rest : cursor.rest with
  | nil =>
    rw [rest] at opens
    cases opens
  | cons token tokens =>
    rw [rest] at opens
    exact beq_iff_eq.1 opens

/-- Any condition is satisfied in front of both braces or in front of none. -/
theorem holds_eq_of_brace {cursor other : Cursor} (here : startsWith .leftBrace cursor.rest = true)
    (there : startsWith .leftBrace other.rest = true) (guard : Guard) :
    guard.holds other = guard.holds cursor := by
  have noWord : (TokenKind.punct .leftBrace == TokenKind.identifier) = false := rfl
  cases guard <;>
    simp [Guard.holds, Cursor.atPunct, Cursor.atKind, Cursor.atWord, Token.isPunct, Token.isWord,
      kind_of_brace here, kind_of_brace there, noWord]

/-- A condition that nothing behind an operation satisfies is satisfied in both texts or in none. -/
theorem holds_eq (turns : Turns behind beyond) {cursor other : Cursor} (here : cursor.rest = behind)
    (there : other.rest = beyond) {guard : Guard} (foreign : guard.isForeign = true) :
    guard.holds other = guard.holds cursor := by
  subst here there
  cases turns with
  | operation here there => rw [here.holds foreign, there.holds foreign]
  | brace here there => exact holds_eq_of_brace here there guard

/-- No attribute alias comes where no name of an attribute does. -/
theorem absent_of_holds {cursor : Cursor}
    (other : (Guard.kind .attributeName).holds cursor = false) :
    cursor.atAttributeAlias = false := by
  rw [Cursor.atAttributeAlias, Token.isAttributeAlias,
    show (cursor.peek.kind == .attributeName) = false from other]
  rfl

theorem absent_of_brace {cursor : Cursor} (opens : startsWith .leftBrace cursor.rest = true) :
    cursor.atAttributeAlias = false := by
  refine absent_of_holds ?_
  rw [Guard.holds, Cursor.atKind, kind_of_brace opens]
  rfl

theorem noAttribute (turns : Turns behind beyond) :
    (∀ {cursor : Cursor}, cursor.rest = behind → cursor.atAttributeAlias = false) ∧
      ∀ {cursor : Cursor}, cursor.rest = beyond → cursor.atAttributeAlias = false := by
  cases turns with
  | operation here there =>
    constructor <;> rintro cursor rfl
    · exact absent_of_holds (here.holds rfl)
    · exact absent_of_holds (there.holds rfl)
  | brace here there =>
    constructor <;> rintro cursor rfl
    · exact absent_of_brace here
    · exact absent_of_brace there

end Turns

/-- Two source texts of which a piece is the same, and the tokens with which they go on behind
it. -/
structure Fork where
  /-- The first text. -/
  source : List Char
  /-- The second text. -/
  other : List Char
  /-- The tokens of the first text behind the piece. -/
  behind : List Token
  /-- The tokens of the second text behind the piece. -/
  beyond : List Token
  /-- The offset at which the piece starts. -/
  start : Nat
  /-- The offset at which the piece ends. -/
  stop : Nat
  /-- The number of tokens in front of the piece in the first text. -/
  origin : Nat
  /-- The number of further tokens that the second text has there. -/
  extra : Nat
  /-- The piece is the same in both texts. -/
  slices : ∀ span : Span, start ≤ span.start → span.stop ≤ stop → span.slice other =
    span.slice source
  /-- How the texts go on is alike. -/
  turns : Turns behind beyond

namespace Fork

open CirText.Parser

variable (fork : Fork)

/-- Whether the name of a value comes where the second text parts from the first. -/
def MeetsValue : Prop :=
  fork.beyond.head?.map (·.kind) = some .value

/-- Whether a condition is satisfied in both texts or in none where the one parts from the other. -/
def Decides (guard : Guard) : Prop :=
  ∀ {cursor other : Cursor}, cursor.rest = fork.behind → other.rest = fork.beyond →
    guard.holds other = guard.holds cursor

/-- Whether no condition tells one text from the other where they part. -/
def Settled : Prop :=
  ∀ guard, fork.Decides guard

/-- Whether two stages have come to the same place of what the texts share, with the given tokens
before they part. -/
structure Abreast (taken : List Token) (stage twin : Stage) : Prop where
  here : stage.rest = taken ++ fork.behind
  there : twin.rest = taken ++ fork.beyond
  within : ∀ token ∈ taken, fork.start ≤ token.span.start ∧ token.span.stop ≤ fork.stop
  reached : fork.origin ≤ stage.cursor.position
  position : twin.cursor.position = stage.cursor.position + fork.extra
  last : fork.origin < stage.cursor.position → twin.cursor.last = stage.cursor.last
  tracker : twin.tracker = stage.tracker
  nextId : twin.nextId = stage.nextId

variable {fork} {taken left : List Token} {stage twin after : Stage} {found : Token}

theorem decides_of_foreign {guard : Guard} (foreign : guard.isForeign = true) :
    fork.Decides guard :=
  fun here there => fork.turns.holds_eq here there foreign

theorem settled_of_brace (here : startsWith .leftBrace fork.behind = true)
    (there : startsWith .leftBrace fork.beyond = true) : fork.Settled := by
  intro guard cursor other same otherSame
  exact Turns.holds_eq_of_brace (same ▸ here) (otherSame ▸ there) guard

namespace Abreast

/-- With no tokens left that are shared, the one text parts from the other. -/
theorem left_unique (abreast : fork.Abreast taken stage twin)
    (rest : stage.rest = left ++ fork.behind) : taken = left :=
  List.append_cancel_right (abreast.here.symm.trans rest)

theorem rest_eq (abreast : fork.Abreast (found :: taken) stage twin) :
    stage.rest = found :: (taken ++ fork.behind) ∧ twin.rest = found :: (taken ++ fork.beyond) :=
  ⟨abreast.here, abreast.there⟩

theorem peek_eq (abreast : fork.Abreast (found :: taken) stage twin) :
    stage.cursor.peek = found ∧ twin.cursor.peek = found := by
  obtain ⟨here, there⟩ := abreast.rest_eq
  exact ⟨Cursor.peek_of_cons here, Cursor.peek_of_cons there⟩

/-- Past a token that is shared. -/
theorem next (abreast : fork.Abreast (found :: taken) stage twin) :
    fork.Abreast taken stage.next twin.next := by
  obtain ⟨here, there⟩ := abreast.rest_eq
  have moved : stage.next.cursor.position = stage.cursor.position + 1 := Cursor.position_next here
  constructor
  · rw [Stage.rest_next, here]
    rfl
  · rw [Stage.rest_next, there]
    rfl
  · exact fun token member => abreast.within token (List.mem_cons_of_mem _ member)
  · rw [moved]
    exact Nat.le_succ_of_le abreast.reached
  · change twin.cursor.next.position = stage.cursor.next.position + fork.extra
    rw [Cursor.position_next here, Cursor.position_next there, abreast.position, Nat.add_right_comm]
  · intro _
    change twin.cursor.next.last = stage.cursor.next.last
    rw [Cursor.last_next here, Cursor.last_next there]
  · exact abreast.tracker
  · exact abreast.nextId

/-- Past several tokens that are shared. -/
theorem advance {took : List Token} (abreast : fork.Abreast (took ++ left) stage twin) :
    fork.Abreast left { stage with cursor := stage.cursor.advance took.length }
      { twin with cursor := twin.cursor.advance took.length } := by
  induction took generalizing stage twin with
  | nil => exact abreast
  | cons token took ih => exact ih abreast.next

/-- A stage that is at the same place with other scopes and another number. -/
theorem withTracker (abreast : fork.Abreast taken stage twin) {tracker other : Tracker}
    (same : other = tracker) :
    fork.Abreast taken { stage with tracker } { twin with tracker := other } :=
  { abreast with tracker := same }

/-- A condition is satisfied by what comes next in both texts or in none, if it is where they
part. -/
theorem holds_eq (abreast : fork.Abreast taken stage twin) (guard : Guard)
    (decided : taken = [] → fork.Decides guard) :
    guard.holds twin.cursor = guard.holds stage.cursor := by
  cases taken with
  | nil => exact decided rfl abreast.here abreast.there
  | cons token taken =>
    obtain ⟨here, there⟩ := abreast.peek_eq
    cases guard <;>
      rw [Guard.holds, Guard.holds] <;>
      simp only [Cursor.atPunct, Cursor.atWord, Cursor.atKind, here, there]

/-- A condition that asks for a value is not satisfied where the texts part, if no value comes
there. -/
theorem noValue (abreast : fork.Abreast taken stage twin) (parted : taken = []) {guard : Guard}
    (asks : guard.class_ = .value) (none_ : ¬fork.MeetsValue) :
    guard.holds twin.cursor = false := by
  subst parted
  by_contra holds
  have kind := Guard.class_of_holds (Bool.eq_true_of_not_eq_false holds)
  rw [asks, Cursor.peek, show twin.cursor.rest = _ from abreast.there, List.nil_append] at kind
  refine none_ ?_
  unfold MeetsValue
  cases rest : fork.beyond with
  | nil =>
    rw [rest] at kind
    cases kind
  | cons token rest_ =>
    rw [rest] at kind
    exact congrArg some kind

/-- A mark comes next in both texts or in none. -/
theorem atPunct_eq (abreast : fork.Abreast taken stage twin) (mark : Punct)
    (other : mark ≠ .rightBrace) : twin.cursor.atPunct mark = stage.cursor.atPunct mark :=
  abreast.holds_eq (.punct mark) fun _ =>
    decides_of_foreign (by simp [Guard.isForeign, Guard.class_, other])

/-- A word comes next in both texts or in none. -/
theorem atWord_eq (abreast : fork.Abreast taken stage twin) (text : String) :
    twin.cursor.atWord text = stage.cursor.atWord text :=
  abreast.holds_eq (.word text) fun _ => decides_of_foreign rfl

/-- Where something is read, tokens are left that are shared. -/
theorem ne_nil (abreast : fork.Abreast taken stage twin) (rest : after.rest = left ++ fork.behind)
    (fewer : after.rest.length < stage.rest.length) : taken ≠ [] := by
  rintro rfl
  rw [abreast.here, rest] at fewer
  simp only [List.nil_append, List.length_append] at fewer
  omega

/-- What is read on the way to where the texts part is shared. -/
theorem split (abreast : fork.Abreast taken stage twin) {took : List Token}
    (leads : stage.rest = took ++ after.rest) (rest : after.rest = left ++ fork.behind) :
    taken = took ++ left := by
  rw [rest, ← List.append_assoc] at leads
  exact abreast.left_unique leads

theorem passes (abreast : fork.Abreast taken stage twin) (passes : stage.Passes found after)
    (rest : after.rest = left ++ fork.behind) :
    ∃ last, twin.Passes found last ∧ fork.Abreast left after last := by
  obtain ⟨here, rfl⟩ := passes
  obtain rfl : taken = [found] ++ left := abreast.split here rest
  refine ⟨twin.next, ⟨?_, rfl⟩, abreast.next⟩
  rw [abreast.there, abreast.next.there]
  rfl

theorem defines (abreast : fork.Abreast taken stage twin) {kind : NameKind} {defined : Definition}
    (defines : stage.Defines kind found defined after) (rest : after.rest = left ++ fork.behind) :
    ∃ last, twin.Defines kind found defined last ∧ fork.Abreast left after last := by
  obtain ⟨free, same, rfl⟩ := defines
  obtain rfl : taken = left := abreast.left_unique rest
  refine ⟨_, ⟨?_, ?_, rfl⟩, abreast.withTracker ?_⟩
  · rw [abreast.tracker, free]
  · rw [same, abreast.tracker]
  · rw [abreast.tracker]

theorem spanBetween_eq {start twinStart : Stage} (before : fork.Abreast taken start twinStart)
    (more : taken ≠ []) (now : fork.Abreast left stage twin) :
    twinStart.cursor.spanBetween twin.cursor = start.cursor.spanBetween stage.cursor := by
  cases taken with
  | nil => exact absurd rfl more
  | cons token taken =>
    obtain ⟨here, there⟩ := before.peek_eq
    have moves : twin.cursor.position ≤ twinStart.cursor.position ↔
        stage.cursor.position ≤ start.cursor.position := by
      rw [now.position, before.position, Nat.add_le_add_iff_right]
    rw [Cursor.spanBetween, Cursor.spanBetween, here, there]
    simp only [moves]
    by_cases stays : stage.cursor.position ≤ start.cursor.position
    · simp only [if_pos stays]
      split <;> split <;> rfl
    · rw [now.last (Nat.lt_of_le_of_lt before.reached (Nat.lt_of_not_le stays))]

/-- Text that is taken over from what the texts share is the same in both. -/
theorem embeds (abreast : fork.Abreast taken stage twin)
    {read : (tokens : List Token) → Reading tokens}
    (leaves : ∀ tokens, Leaves tokens (read tokens))
    (echoes : ∀ {behind beyond}, SameMark behind beyond → ∀ tokens,
      Echoes behind beyond read tokens)
    {text : String} {span : Span} (embeds : stage.Embeds fork.source read text span after)
    (rest : after.rest = left ++ fork.behind) :
    ∃ last, twin.Embeds fork.other read text span last ∧ fork.Abreast left after last := by
  obtain ⟨took, leads, embedded⟩ := embeds.embedded
  obtain rfl : taken = took ++ left := abreast.split leads rest
  obtain ⟨first, final, starts, ends, place⟩ := embedded.ends
  obtain ⟨given, found, rfl, same, rfl⟩ := embeds
  have toLeft : given.1 = left ++ fork.behind :=
    (Sees.advanceTo_rest (suffix_of_ok (leaves _) found)).symm.trans rest
  have echo : Echo fork.behind fork.beyond stage.rest twin.rest := by
    rw [abreast.here, abreast.there]
    exact .refl_append _
  obtain ⟨more, again, echo⟩ := echoes fork.turns.sameMark _ given found
    (toLeft ▸ List.suffix_append _ _) _ echo
  have moreEq : more.1 = left ++ fork.beyond := by
    rw [toLeft] at echo
    have within : more.1 <:+ twin.rest := suffix_of_ok (leaves _) again
    exact echo.left_eq (within.trans (by rw [abreast.there]))
  have here : stage.cursor.advanceTo given.1 = stage.cursor.advance took.length := by
    rw [Cursor.advanceTo, show stage.cursor.rest = _ from abreast.here, toLeft]
    simp
  have there : twin.cursor.advanceTo more.1 = twin.cursor.advance took.length := by
    rw [Cursor.advanceTo, show twin.cursor.rest = _ from abreast.there, moreEq]
    simp
  have shared : took ++ left ≠ [] := by
    cases took with
    | nil => cases starts
    | cons token took => exact List.cons_ne_nil _ _
  have moved := abreast.advance
  rw [here]
  refine ⟨{ twin with cursor := twin.cursor.advance took.length },
    ⟨more, again, by rw [there], ?_, ?_⟩,
    moved⟩
  · rw [same, here]
    exact (abreast.spanBetween_eq shared moved).symm
  · have inside : ∀ token ∈ took, fork.start ≤ token.span.start ∧ token.span.stop ≤ fork.stop :=
      fun token member => abreast.within token (List.mem_append_left _ member)
    have starting := inside first (List.mem_of_head? starts)
    have ending := inside final (List.mem_of_getLast? ends)
    have same : span.slice fork.other = span.slice fork.source := by
      refine fork.slices span ?_ ?_
      · rw [place]
        exact Nat.le_min.2 ⟨starting.1, ending.1⟩
      · rw [place]
        exact Nat.max_le.2 ⟨starting.2, ending.2⟩
    rw [same]

/-- The second text does not end before what is shared. -/
theorem atEnd_eq_false (abreast : fork.Abreast taken stage twin) (shared : taken ≠ []) :
    twin.cursor.atEnd = false := by
  rw [Stage.atEnd_eq, abreast.there]
  cases taken with
  | nil => exact absurd rfl shared
  | cons token taken => rfl

/-- The name of an attribute alias comes next in both texts or in none. -/
theorem atAttributeAlias_eq (abreast : fork.Abreast taken stage twin) :
    twin.cursor.atAttributeAlias = stage.cursor.atAttributeAlias := by
  cases taken with
  | nil =>
    rw [fork.turns.noAttribute.1 abreast.here, fork.turns.noAttribute.2 abreast.there]
  | cons token taken =>
    obtain ⟨here, there⟩ := abreast.rest_eq
    have echo : Echo fork.behind fork.beyond (taken ++ fork.behind) (taken ++ fork.beyond) :=
      .refl_append taken
    rw [Parser.atAttributeAlias_eq, Parser.atAttributeAlias_eq, show stage.cursor.rest =
      _ from here, show twin.cursor.rest = _ from there]
    exact startsWithAlias_eq rfl rfl (echo.sameMark fork.turns.sameMark)

end Abreast

/-! ## What is read in both texts -/

variable {α β : Type}

/-- What is left behind something on the way to where the texts part. -/
theorem left_of_leads (leads : stage.Leads after) (rest : after.rest = left ++ fork.behind) :
    ∃ more, stage.rest = more ++ fork.behind ∧ (more = [] → left = []) := by
  obtain ⟨took, leads⟩ := leads
  refine ⟨took ++ left, by rw [leads, rest, List.append_assoc], fun empty => ?_⟩
  exact (List.append_eq_nil_iff.1 empty).2

/-- Whether what is read in the first text is read in the second one as well, where it has to be
tame if the texts part right behind it. -/
def Persists (fork : Fork) (meaning : Meaning α) (tame : Prop) : Prop :=
  ∀ ⦃before after twin : Stage⦄ ⦃a : α⦄ ⦃taken left : List Token⦄,
    meaning fork.source before a after → fork.Abreast taken before twin →
      after.rest = left ++ fork.behind → (left = [] → tame) →
        ∃ last, meaning fork.other twin a last ∧ fork.Abreast left after last

namespace Persists

variable {meaning item : Meaning α} {parser : Parser α} {tame : Prop}

theorem mono {weaker : Prop} (persists : fork.Persists meaning tame) (implies : weaker → tame) :
    fork.Persists meaning weaker := by
  intro before after twin a taken left reads abreast rest isTame
  exact persists reads abreast rest (implies ∘ isTame)

/-! ### Tokens, names, types and attributes -/

/-- A token that satisfies a condition. -/
theorem satisfying {accepts : Token → Prop} :
    fork.Persists (fun _ before found after => accepts found ∧ before.Passes found after) tame := by
  rintro before after twin found taken left ⟨isFound, passes⟩ abreast rest _
  obtain ⟨last, again, done⟩ := abreast.passes passes rest
  exact ⟨last, ⟨isFound, again⟩, done⟩

/-- A single token. -/
theorem token {accepts : Token → Prop} {value : Token → α} :
    fork.Persists (fun _ before a after =>
      ∃ found, (accepts found ∧ before.Passes found after) ∧ a = value found) tame := by
  rintro before after twin _ taken left ⟨found, ⟨isFound, passes⟩, rfl⟩ abreast rest _
  obtain ⟨last, again, done⟩ := abreast.passes passes rest
  exact ⟨last, ⟨found, ⟨isFound, again⟩, rfl⟩, done⟩

/-- The use of a name. -/
theorem name (kind : NameKind) :
    fork.Persists (fun _ before used after => before.Refers kind used after) tame := by
  rintro before _ twin _ taken left ⟨found, isName, toRest, rfl, rfl⟩ abreast rest _
  obtain rfl : taken = [found] ++ left := abreast.split toRest rest
  have next := abreast.next
  refine ⟨{ twin.next with tracker := (twin.tracker.refer kind found.name found.span).2 },
    ⟨found, isName, ?_, ?_, rfl⟩, next.withTracker ?_⟩
  · exact abreast.there.trans (congrArg (found :: ·) next.there.symm)
  · rw [abreast.tracker]
  · rw [abreast.tracker]

theorem type : fork.Persists TypeReads tame := by
  intro before after twin written taken left reads abreast rest _
  exact abreast.embeds leaves_type echoes_type reads rest

theorem attributeOf (form : AttributeForm) : fork.Persists (AttributeReads form) tame := by
  rintro before after twin value taken left ⟨sameForm, reads⟩ abreast rest _
  obtain ⟨last, again, done⟩ :=
    abreast.embeds (leaves_ofForm form) (fun same => echoes_ofForm same form) reads rest
  exact ⟨last, ⟨sameForm, again⟩, done⟩

theorem namedAttribute : fork.Persists NamedAttributeReads tame := by
  intro before after twin value taken left reads abreast rest isTame
  unfold NamedAttributeReads at reads ⊢
  simp only [abreast.atAttributeAlias_eq]
  split at reads
  · rename_i isAlias
    simp only [if_pos isAlias]
    exact attributeOf .aliasName reads abreast rest isTame
  · rename_i noAlias
    simp only [if_neg noAlias]
    obtain ⟨last, again, done⟩ := attributeOf .dialect reads.2 abreast rest isTame
    exact ⟨last, ⟨again.isDialect.2, again⟩, done⟩

theorem trailingAttribute : fork.Persists TrailingAttributeReads tame := by
  intro before after twin found taken left reads abreast rest isTame
  unfold TrailingAttributeReads at reads ⊢
  simp only [abreast.atAttributeAlias_eq, abreast.atPunct_eq .leftBrace (by decide)]
  split at reads
  · rename_i isAlias
    simp only [if_pos isAlias]
    obtain ⟨value, reads, rfl⟩ := reads
    obtain ⟨last, again, done⟩ := attributeOf .aliasName reads abreast rest isTame
    exact ⟨last, ⟨value, again, rfl⟩, done⟩
  · rename_i noAlias
    simp only [if_neg noAlias]
    split at reads
    · rename_i isBrace
      simp only [if_pos isBrace]
      obtain ⟨value, reads, rfl⟩ := reads
      obtain ⟨last, again, done⟩ := attributeOf .dictionary reads abreast rest isTame
      exact ⟨last, ⟨value, again, rfl⟩, done⟩
    · rename_i noBrace
      simp only [if_neg noBrace]
      obtain ⟨rfl, rfl⟩ := reads
      obtain rfl := abreast.left_unique rest
      exact ⟨twin, ⟨rfl, rfl⟩, abreast⟩

/-! ### Lists -/

section

variable (h : Means parser item) (each : fork.Persists item tame)

include h each

theorem tail : fork.Persists (TailReads item) tame := by
  intro before after twin items taken left reads abreast rest isTame
  induction reads generalizing twin taken with
  | nil ends =>
    obtain rfl := abreast.left_unique rest
    exact ⟨twin, .nil ((abreast.atPunct_eq .comma (by decide)).trans ends), abreast⟩
  | @cons before middle after a items comma first others ih =>
    obtain ⟨token, isComma, passes⟩ := Stage.passes_of_atPunct comma
    have toAfter : middle.Leads after := (Means.tail h).leads _ _ _ _ others
    obtain ⟨more, restMiddle, parts⟩ := left_of_leads toAfter rest
    obtain ⟨shared, restNext, _⟩ := left_of_leads (h.leads _ _ _ _ first) restMiddle
    obtain ⟨_, ⟨_, rfl⟩, next⟩ := abreast.passes passes restNext
    obtain ⟨between, firstAgain, midway⟩ := each first next restMiddle (isTame ∘ parts)
    obtain ⟨last, othersAgain, done⟩ := ih midway rest
    exact ⟨last, .cons ((abreast.atPunct_eq .comma (by decide)).trans comma) firstAgain othersAgain,
      done⟩

theorem separated : fork.Persists (SeparatedReads item) tame := by
  rintro before after twin found taken left ⟨middle, first, others⟩ abreast rest isTame
  have toAfter : middle.Leads after := (Means.tail h).leads _ _ _ _ others
  obtain ⟨more, restMiddle, parts⟩ := left_of_leads toAfter rest
  obtain ⟨between, firstAgain, midway⟩ := each first abreast restMiddle (isTame ∘ parts)
  obtain ⟨last, othersAgain, done⟩ := tail h each others midway rest isTame
  exact ⟨last, ⟨between, firstAgain, othersAgain⟩, done⟩

theorem listed : fork.Persists (ListedReads item) tame := by
  intro before after twin items taken left reads abreast rest isTame
  cases reads with
  | nil ends =>
    obtain rfl := abreast.left_unique rest
    exact ⟨twin, .nil ((abreast.atPunct_eq .rightParen (by decide)).trans ends), abreast⟩
  | cons inside all =>
    obtain ⟨last, again, done⟩ := separated h each all abreast rest isTame
    exact ⟨last, .cons ((abreast.atPunct_eq .rightParen (by decide)).trans inside) again, done⟩

theorem ellipsis : fork.Persists (EllipsisReads item) tame := by
  intro before after twin found taken left reads abreast rest isTame
  have leads : ∀ {before after : Stage} {found : List α × Bool},
      EllipsisReads item fork.source before found after → before.Leads after := by
    intro before after found reads
    induction reads with
    | ellipsis => exact Stage.leads_next _
    | last _ only => exact h.leads _ _ _ _ only
    | more _ first _ _ ih => exact ((h.leads _ _ _ _ first).trans (Stage.leads_next _)).trans ih
  induction reads generalizing twin taken with
  | ellipsis here =>
    obtain ⟨token, isEllipsis, passes⟩ := Stage.passes_of_atPunct here
    obtain ⟨_, ⟨_, rfl⟩, done⟩ := abreast.passes passes rest
    exact ⟨twin.next, .ellipsis ((abreast.atPunct_eq .ellipsis (by decide)).trans here), done⟩
  | last absent only ends =>
    obtain ⟨last, again, done⟩ := each only abreast rest isTame
    exact ⟨last, .last ((abreast.atPunct_eq .ellipsis (by decide)).trans absent) again
      ((done.atPunct_eq .comma (by decide)).trans ends), done⟩
  | @more before middle after a items ellipsis absent first comma others ih =>
    obtain ⟨token, isComma, passes⟩ := Stage.passes_of_atPunct comma
    obtain ⟨later, restNext, _⟩ := left_of_leads (leads others) rest
    have restMiddle : middle.rest = (token :: later) ++ fork.behind := by
      rw [passes.1, restNext, List.cons_append]
    obtain ⟨between, firstAgain, midway⟩ := each first abreast restMiddle (by rintro ⟨⟩)
    obtain ⟨last, othersAgain, done⟩ := ih midway.next rest
    exact ⟨last, .more ((abreast.atPunct_eq .ellipsis (by decide)).trans absent) firstAgain
      ((midway.atPunct_eq .comma (by decide)).trans comma) othersAgain, done⟩

theorem listedWithEllipsis : fork.Persists (ListedWithEllipsisReads item) tame := by
  intro before after twin found taken left reads abreast rest isTame
  unfold ListedWithEllipsisReads at reads ⊢
  simp only [abreast.atPunct_eq .rightParen (by decide)]
  split at reads
  · rename_i closes
    simp only [if_pos closes]
    obtain ⟨rfl, rfl⟩ := reads
    obtain rfl := abreast.left_unique rest
    exact ⟨twin, ⟨rfl, rfl⟩, abreast⟩
  · rename_i inside
    simp only [if_neg inside]
    exact ellipsis h each reads abreast rest isTame

omit h each in
/-- An optional comma is shared, or there is none in both texts. -/
theorem pastComma (abreast : fork.Abreast taken stage twin)
    (rest : stage.pastComma.rest = left ++ fork.behind) :
    fork.Abreast left stage.pastComma twin.pastComma := by
  unfold Stage.pastComma at rest ⊢
  rw [abreast.atPunct_eq .comma (by decide)]
  split at rest
  · rename_i comma
    obtain ⟨token, isComma, passes⟩ := Stage.passes_of_atPunct comma
    obtain ⟨_, ⟨_, rfl⟩, done⟩ := abreast.passes passes rest
    rw [if_pos comma, if_pos comma]
    exact done
  · rename_i absent
    obtain rfl := abreast.left_unique rest
    rw [if_neg absent, if_neg absent]
    exact abreast

omit h each in
/-- A separator that may be left out is shared, or there is none in both texts. -/
theorem pastSeparator {separator : Separator} (abreast : fork.Abreast taken stage twin)
    (rest : (stage.pastSeparator separator).rest = left ++ fork.behind) :
    fork.Abreast left (stage.pastSeparator separator) (twin.pastSeparator separator) := by
  cases separator with
  | comma => exact pastComma abreast rest
  | blank =>
    obtain rfl := abreast.left_unique rest
    exact abreast

theorem bracketed (separator : Separator) : fork.Persists (BracketedReads separator item) tame := by
  intro before after twin items taken left reads abreast rest isTame
  induction reads generalizing twin taken with
  | nil ends =>
    obtain ⟨token, isClosing, passes⟩ := Stage.passes_of_atPunct ends
    obtain ⟨_, ⟨_, rfl⟩, done⟩ := abreast.passes passes rest
    exact ⟨twin.next, .nil ((abreast.atPunct_eq .rightBracket (by decide)).trans ends), done⟩
  | @cons before middle after a items inside more first others ih =>
    have toAfter : (middle.pastSeparator separator).Leads after := others.leads h.leads
    obtain ⟨later, restPast, parts⟩ := left_of_leads toAfter rest
    obtain ⟨shared, restMiddle, empty⟩ :=
      left_of_leads (middle.leads_pastSeparator separator) restPast
    obtain ⟨between, firstAgain, midway⟩ := each first abreast restMiddle (isTame ∘ parts ∘ empty)
    have past := pastSeparator midway restPast
    obtain ⟨last, othersAgain, done⟩ := ih past rest
    -- The closing bracket is still to come.
    have fewer : after.rest.length < (middle.pastSeparator separator).rest.length :=
      others.fewer h.leads
    have leads := (h.leads _ _ _ _ first).trans (middle.leads_pastSeparator separator)
    have shares : taken ≠ [] := abreast.ne_nil rest (Nat.lt_of_lt_of_le fewer leads.length_le)
    exact ⟨last, .cons ((abreast.atPunct_eq .rightBracket (by decide)).trans inside)
      (abreast.atEnd_eq_false shares) firstAgain othersAgain, done⟩

theorem repeated {next : Guard} (progresses : item.Progresses)
    (decided : tame → fork.Decides next) :
    fork.Persists (RepeatedReads next item) tame := by
  intro before after twin items taken left reads abreast rest isTame
  induction reads generalizing twin taken with
  | nil ends =>
    obtain rfl := abreast.left_unique rest
    exact ⟨twin, .nil ((abreast.holds_eq next (decided ∘ isTame)).trans ends), abreast⟩
  | @cons before middle after a items goesOn first others ih =>
    have toAfter : middle.pastComma.Leads after :=
      (Means.repeated next h progresses).leads _ _ _ _ others
    obtain ⟨later, restPast, parts⟩ := left_of_leads toAfter rest
    obtain ⟨shared, restMiddle, empty⟩ := left_of_leads middle.leads_pastComma restPast
    obtain ⟨between, firstAgain, midway⟩ := each first abreast restMiddle (isTame ∘ parts ∘ empty)
    obtain ⟨last, othersAgain, done⟩ := ih (pastComma midway restPast) rest
    have shares : taken ≠ [] := abreast.ne_nil restMiddle (progresses _ _ _ _ first)
    have here := abreast.holds_eq next fun parted => absurd parted shares
    exact ⟨last, .cons (here.trans goesOn) firstAgain othersAgain, done⟩

end

/-! ### Modifiers -/

theorem argument (kind : ArgumentKind) : fork.Persists (ArgumentReads kind) tame := by
  cases kind with
  | word | integer => exact token
  | «symbol» =>
    rintro before after twin _ taken left ⟨used, reads, rfl⟩ abreast rest isTame
    obtain ⟨last, again, done⟩ := name .symbol reads abreast rest isTame
    exact ⟨last, ⟨used, again, rfl⟩, done⟩
  | «attribute» =>
    rintro before after twin _ taken left ⟨value, reads, rfl⟩ abreast rest isTame
    obtain ⟨last, again, done⟩ := namedAttribute reads abreast rest isTame
    exact ⟨last, ⟨value, again, rfl⟩, done⟩

theorem modifierArgument (form : Option ArgumentSyntax) :
    fork.Persists (ModifierArgumentReads form) tame := by
  intro before after twin found taken left reads abreast rest isTame
  cases form with
  | none =>
    obtain ⟨rfl, rfl⟩ := reads
    obtain rfl := abreast.left_unique rest
    exact ⟨twin, ⟨rfl, rfl⟩, abreast⟩
  | some form =>
    have noBrace : form.opening ≠ .rightBrace := by
      unfold ArgumentSyntax.opening
      split <;> decide
    have same := abreast.atPunct_eq form.opening noBrace
    simp only [ModifierArgumentReads, same] at reads ⊢
    split at reads
    · rename_i leftOut
      simp only [if_pos leftOut]
      obtain ⟨rfl, rfl⟩ := reads
      obtain rfl := abreast.left_unique rest
      exact ⟨twin, ⟨rfl, rfl⟩, abreast⟩
    · rename_i opens
      simp only [if_neg opens]
      obtain ⟨opening, first, ⟨isOpening, passes⟩, argument, last, reads, closing,
          ⟨isClosing, closes⟩,
        rfl⟩ := reads
      have restLast : last.rest = (closing :: left) ++ fork.behind := by
        rw [closes.1, rest, List.cons_append]
      obtain ⟨more, restFirst, _⟩ :=
        left_of_leads ((Means.argumentReads form.kind).leads _ _ _ _ reads) restLast
      obtain ⟨next, passesAgain, inside⟩ := abreast.passes passes restFirst
      obtain ⟨final, again, outside⟩ :=
        Persists.argument form.kind reads inside restLast fun _ => trivial
      obtain ⟨past, closesAgain, done⟩ := outside.passes closes rest
      exact ⟨past, ⟨opening, next, ⟨isOpening, passesAgain⟩, argument, final, again, closing,
        ⟨isClosing, closesAgain⟩, rfl⟩, done⟩

theorem modifiers (rules : List ModifierRule) (earlier : List Modifier) :
    fork.Persists (fun source => ModifiersRead rules source earlier) tame := by
  intro before after twin found taken left reads abreast rest isTame
  have leads : ∀ {earlier found : List Modifier} {before after : Stage},
      ModifiersRead rules fork.source earlier before found after → before.Leads after := by
    intro earlier found before after reads
    induction reads with
    | nil => exact .refl _
    | cons _ first _ _ ih =>
      exact ((Stage.leads_next _).trans ((Means.modifierArgumentReads _).leads _ _ _ _ first)).trans
        ih
  have finds : ∀ {taken stage twin}, fork.Abreast taken stage twin →
      rules.find? (fun rule => twin.cursor.atWord rule.keyword) =
        rules.find? fun rule => stage.cursor.atWord rule.keyword := by
    intro taken stage twin abreast
    simp only [abreast.atWord_eq]
  induction reads generalizing twin taken with
  | nil ends =>
    obtain rfl := abreast.left_unique rest
    exact ⟨twin, .nil ((finds abreast).trans ends), abreast⟩
  | @cons earlier modifiers before middle after rule argument keyword first free others ih =>
    have here := List.find?_some keyword
    have passes := ((Stage.passes_iff (·.isWord rule.keyword) fun _ => rfl).1 ⟨here, rfl, rfl⟩).2
    obtain ⟨more, restMiddle, parts⟩ := left_of_leads (leads others) rest
    obtain ⟨shared, restNext, _⟩ :=
      left_of_leads ((Means.modifierArgumentReads _).leads _ _ _ _ first) restMiddle
    obtain ⟨_, ⟨_, rfl⟩, next⟩ := abreast.passes passes restNext
    obtain ⟨between, firstAgain, midway⟩ :=
      modifierArgument _ first next restMiddle (isTame ∘ parts)
    obtain ⟨last, othersAgain, done⟩ := ih midway rest
    exact ⟨last, .cons ((finds abreast).trans keyword) firstAgain free othersAgain, done⟩

end Persists

end Fork

end CirText
