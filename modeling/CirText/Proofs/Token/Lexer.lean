import CirText.Token.Lexer

/-!
# Where tokens stand

The lexer goes through a text from left to right. No token is empty, and each one ends before the
next one starts, so no two tokens have the same span.
-/

namespace CirText

/-- Whether a span lies within another. -/
structure Span.Inside (inner outer : Span) : Prop where
  start : outer.start ≤ inner.start
  stop : inner.stop ≤ outer.stop

instance (inner outer : Span) : Decidable (inner.Inside outer) :=
  decidable_of_iff (outer.start ≤ inner.start ∧ inner.stop ≤ outer.stop)
    ⟨fun both => ⟨both.1, both.2⟩, fun inside => ⟨inside.start, inside.stop⟩⟩

end CirText

namespace CirText.Lexer

/-! ## One item at a time -/

/-- Skipping blanks and comments moves the offset by the bytes that are skipped. -/
theorem skipTrivia_spec (inComment : Bool) (offset : Nat) (text : List Char) :
    ∃ skipped, text = skipped ++ (skipTrivia inComment offset text).2 ∧
      (skipTrivia inComment offset text).1 = offset + Text.byteSize skipped := by
  induction text generalizing inComment offset with
  | nil => exact ⟨[], rfl, rfl⟩
  | cons c rest ih =>
    have moved : ∀ inComment, ∃ skipped,
        c :: rest = skipped ++ (skipTrivia inComment (offset + c.utf8Size) rest).2 ∧
          (skipTrivia inComment (offset + c.utf8Size) rest).1 = offset + Text.byteSize skipped := by
      intro inComment
      obtain ⟨skipped, split, moves⟩ := ih inComment (offset + c.utf8Size)
      refine ⟨c :: skipped, ?_, ?_⟩
      · rw [List.cons_append, ← split]
      · rw [moves, Text.byteSize, Nat.add_assoc]
    rw [skipTrivia]
    split
    · exact moved _
    · split
      · exact moved _
      · split
        · exact moved _
        · exact ⟨[], rfl, rfl⟩

theorem itemsFrom_eq (offset : Nat) (text : List Char) :
    itemsFrom offset text =
      match skipTrivia false offset text with
      | (_, []) => []
      | (start, c :: rest) =>
        (item start c rest).1 ::
          itemsFrom (start + Text.byteSize (c :: rest.take (item start c rest).2))
            (rest.drop (item start c rest).2) := by
  rw [itemsFrom]
  split <;> simp_all

/-- The tokens among items. -/
def tokensOf (items : List LexItem) : List Token :=
  items.filterMap fun
    | .token token => some token
    | .error _ => none

/-! ## Spans -/

/-- Whether tokens stand one after the other from an offset on, none of them empty. -/
def Ordered (offset : Nat) : List Token → Prop
  | [] => True
  | token :: rest =>
    offset ≤ token.span.start ∧ token.span.start < token.span.stop ∧ Ordered token.span.stop rest

theorem Ordered.mono {offset earlier : Nat} {tokens : List Token} (h : Ordered offset tokens)
    (le : earlier ≤ offset) : Ordered earlier tokens := by
  cases tokens with
  | nil => trivial
  | cons token rest => exact ⟨Nat.le_trans le h.1, h.2⟩

theorem item_token {offset : Nat} {c : Char} {rest : List Char} {token : Token}
    (found : (item offset c rest).1 = .token token) :
    token.span = ⟨offset, offset + Text.byteSize (c :: rest.take (item offset c rest).2)⟩ := by
  unfold item at found ⊢
  split at found
  · cases found
    simp_all
  · split at found <;> cases found

theorem ordered_itemsFrom (offset : Nat) (text : List Char) :
    Ordered offset (tokensOf (itemsFrom offset text)) := by
  induction offset, text using itemsFrom.induct with
  | case1 offset text start found =>
    rw [itemsFrom_eq, found]
    trivial
  | case2 offset text start c rest found first length same ih =>
    obtain ⟨skipped, _, moves⟩ := skipTrivia_spec false offset text
    rw [itemsFrom_eq, found]
    rw [found] at moves
    have reached : offset ≤ start := Nat.le.intro moves.symm
    have size : start < start + Text.byteSize (c :: rest.take (item start c rest).2) := by
      have := c.utf8Size_pos
      simp only [Text.byteSize]
      omega
    rw [same] at size
    simp only [same]
    cases first with
    | error fault => exact ih.mono (Nat.le_trans reached (Nat.le_of_lt size))
    | token token =>
      have span := item_token (congrArg Prod.fst same)
      rw [same] at span
      refine ⟨?_, ?_, ?_⟩
      · rw [span]
        exact reached
      · rw [span]
        exact size
      · rw [span]
        exact ih

theorem Ordered.start_le {offset : Nat} {tokens : List Token} (h : Ordered offset tokens) :
    ∀ token ∈ tokens, offset ≤ token.span.start := by
  induction tokens generalizing offset with
  | nil => simp
  | cons first rest ih =>
    intro token member
    rcases List.mem_cons.1 member with rfl | later
    · exact h.1
    · have := ih h.2.2 token later
      have := h.1
      have := h.2.1
      omega

/-- No two tokens have the same span. -/
theorem Ordered.nodup_spans {offset : Nat} {tokens : List Token} (h : Ordered offset tokens) :
    (tokens.map (·.span)).Nodup := by
  induction tokens generalizing offset with
  | nil => exact .nil
  | cons first rest ih =>
    rw [List.map_cons, List.nodup_cons]
    refine ⟨?_, ih h.2.2⟩
    intro member
    obtain ⟨token, inside, same⟩ := List.mem_map.1 member
    have after := h.2.2.start_le token inside
    have nonempty := h.2.1
    rw [same] at after
    omega

theorem Ordered.nonempty {offset : Nat} {tokens : List Token} (h : Ordered offset tokens) :
    ∀ token ∈ tokens, token.span.start < token.span.stop := by
  induction tokens generalizing offset with
  | nil => simp
  | cons first rest ih => exact List.forall_mem_cons.2 ⟨h.2.1, ih h.2.2⟩

/-- Tokens end before those behind them start. -/
theorem Ordered.stop_le_start {offset : Nat} {left right : List Token}
    (h : Ordered offset (left ++ right)) :
    ∀ earlier ∈ left, ∀ later ∈ right, earlier.span.stop ≤ later.span.start := by
  induction left generalizing offset with
  | nil => rintro _ ⟨⟩
  | cons first rest ih =>
    refine List.forall_mem_cons.2 ⟨fun later member => ?_, ih h.2.2⟩
    exact h.2.2.start_le later (List.mem_append_right rest member)

theorem Ordered.append_right {offset : Nat} {left right : List Token}
    (h : Ordered offset (left ++ right)) : ∃ later, Ordered later right := by
  induction left generalizing offset with
  | nil => exact ⟨offset, h⟩
  | cons first rest ih => exact ih h.2.2

theorem Ordered.append_left {offset : Nat} {left right : List Token}
    (h : Ordered offset (left ++ right)) : Ordered offset left := by
  induction left generalizing offset with
  | nil => trivial
  | cons first rest ih => exact ⟨h.1, h.2.1, ih h.2.2⟩

/-- Tokens that follow each other keep their order when others around them are left out. -/
theorem Ordered.infix {offset : Nat} {tokens taken : List Token} (h : Ordered offset tokens)
    (within : taken <:+: tokens) : ∃ later, Ordered later taken := by
  obtain ⟨left, right, rfl⟩ := within
  exact (append_left h).append_right

theorem Ordered.stop_le_getLast {offset : Nat} {tokens : List Token} (h : Ordered offset tokens)
    {last : Token} (ends : tokens.getLast? = some last) :
    ∀ token ∈ tokens, token.span.stop ≤ last.span.stop := by
  induction tokens generalizing offset with
  | nil => simp
  | cons first rest ih =>
    cases rest with
    | nil =>
      intro token member
      cases ends
      rw [List.mem_singleton.1 member]
      exact Nat.le_refl _
    | cons second rest =>
      rw [List.getLast?_cons_cons] at ends
      have later := ih h.2.2 ends
      have next := later second List.mem_cons_self
      have start := h.2.2.1
      have nonempty := h.2.2.2.1
      intro token member
      rcases List.mem_cons.1 member with rfl | among
      · omega
      · exact later token among

theorem Ordered.head?_start_le {offset : Nat} {tokens : List Token} (h : Ordered offset tokens)
    {first : Token} (starts : tokens.head? = some first) :
    ∀ token ∈ tokens, first.span.start ≤ token.span.start := by
  intro token member
  obtain ⟨rest, rfl⟩ := List.head?_eq_some_iff.1 starts
  rcases List.mem_cons.1 member with rfl | later
  · exact Nat.le_refl _
  · have passed := h.2.2.start_le token later
    have nonempty := h.2.1
    omega

/-- The span from the first to the last token. -/
theorem Ordered.cover_eq {offset : Nat} {tokens : List Token} (h : Ordered offset tokens)
    {first last : Token} (starts : tokens.head? = some first) (ends : tokens.getLast? = some last) :
    first.span.cover last.span = ⟨first.span.start, last.span.stop⟩ := by
  have start := h.head?_start_le starts last (List.mem_of_getLast? ends)
  have stop := h.stop_le_getLast ends first (List.mem_of_head? starts)
  rw [Span.cover, Nat.min_eq_left start, Nat.max_eq_right stop]

/-- Tokens stand inside the span from the first to the last of them. -/
theorem Ordered.inside_cover {offset : Nat} {tokens : List Token} (h : Ordered offset tokens)
    {first last : Token} (starts : tokens.head? = some first) (ends : tokens.getLast? = some last) :
    ∀ token ∈ tokens, token.span.Inside (first.span.cover last.span) := by
  intro token member
  rw [h.cover_eq starts ends]
  exact ⟨h.head?_start_le starts token member, h.stop_le_getLast ends token member⟩

end CirText.Lexer

namespace CirText

theorem ordered_tokens (source : String) : Lexer.Ordered 0 (tokenize source).tokens :=
  Lexer.ordered_itemsFrom 0 source.toList

end CirText
