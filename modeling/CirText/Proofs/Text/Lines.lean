import CirText.Proofs.Token.Place
import CirText.Text.Lines

/-!
# The line structure of a text

The structure is given by index: where the line breaks of a text end, how many of them and how many
characters end at or before a byte offset, and at which character a line starts. `placeOf` finds
line and column in one pass over the text; `placeOf_eq` says that it finds what the structure says,
and `placeOf_lt` that places come in the order of the offsets they belong to.
-/

namespace CirText.Text

/-- The characters that end a line. -/
def lineEnds : List Char :=
  ['\n', '\x0b', '\x0c', '\r', '\u0085', '\u2028', '\u2029']

/-- The byte offset at which the character of a number starts. -/
def offsetOf (text : List Char) (index : Nat) : Nat :=
  byteSize (text.take index)

/-- Whether the character of a number is the last of a line break. A carriage return before a line
feed is not: the two are one break. -/
def closesLine (text : List Char) (index : Nat) : Bool :=
  text[index]?.any (· ∈ lineEnds) && !(text[index]? == some '\r' && text[index + 1]? == some '\n')

/-- The numbers of the characters that follow a line break, the end of the text counted as one. -/
def breakEnds (text : List Char) : List Nat :=
  ((List.range text.length).filter (closesLine text)).map (· + 1)

/-- The line of a byte offset: the number of line breaks that end at or before it. -/
def byteToLine (text : List Char) (offset : Nat) : Nat :=
  (breakEnds text).countP fun index => offsetOf text index ≤ offset

/-- The character of a byte offset: the number of characters that end at or before it. -/
def byteToChar (text : List Char) (offset : Nat) : Nat :=
  (List.range text.length).countP fun index => offsetOf text (index + 1) ≤ offset

/-- The number of the first character of a line; past the last line, the number of characters. -/
def lineToChar (text : List Char) (line : Nat) : Nat :=
  (0 :: breakEnds text).getD line text.length

theorem isLineBreak_iff {c : Char} : isLineBreak c = true ↔ c ∈ lineEnds := by
  simp only [isLineBreak, lineEnds, List.mem_cons, List.not_mem_nil, or_false, Bool.or_eq_true,
    Bool.and_eq_true, beq_iff_eq, decide_eq_true_eq, ← Char.toNat_inj, Char.reduceToNat]
  omega

/-! ## The structure of a text with one more character in front -/

section Cons

variable (c : Char) (rest : List Char) (offset : Nat)

theorem offsetOf_cons (index : Nat) :
    offsetOf (c :: rest) (index + 1) = c.utf8Size + offsetOf rest index :=
  rfl

theorem breakEnds_cons :
    breakEnds (c :: rest) =
      if closesLine (c :: rest) 0 then 1 :: (breakEnds rest).map (· + 1)
      else (breakEnds rest).map (· + 1) := by
  have later : closesLine (c :: rest) ∘ Nat.succ = closesLine rest := rfl
  unfold breakEnds
  rw [List.length_cons, List.range_succ_eq_map, List.filter_cons, List.filter_map, later]
  split <;> simp

theorem byteToChar_cons_of_lt (inside : offset < c.utf8Size) :
    byteToChar (c :: rest) offset = 0 := by
  refine List.countP_eq_zero.2 fun index _ => ?_
  rw [offsetOf_cons, decide_eq_true_eq]
  omega

theorem byteToLine_cons_of_lt (inside : offset < c.utf8Size) :
    byteToLine (c :: rest) offset = 0 := by
  refine List.countP_eq_zero.2 fun index member => ?_
  obtain ⟨last, -, rfl⟩ := List.mem_map.1 member
  rw [offsetOf_cons, decide_eq_true_eq]
  omega

/-- An offset past the first character reaches the same indices as what is left of it does in the
rest. -/
theorem reaches_cons :
    (fun index => decide (offsetOf (c :: rest) index ≤ c.utf8Size + offset)) ∘ (· + 1) =
      fun index => decide (offsetOf rest index ≤ offset) := by
  funext index
  simp only [Function.comp_apply, offsetOf_cons, Nat.add_le_add_iff_left]

theorem byteToChar_cons :
    byteToChar (c :: rest) (c.utf8Size + offset) = byteToChar rest offset + 1 := by
  have first : decide (offsetOf (c :: rest) (0 + 1) ≤ c.utf8Size + offset) = true :=
    decide_eq_true (Nat.le_add_right c.utf8Size offset)
  have later : (fun index => decide (offsetOf (c :: rest) (index + 1) ≤ c.utf8Size + offset)) ∘
      Nat.succ = fun index => decide (offsetOf rest (index + 1) ≤ offset) :=
    congrArg (· ∘ Nat.succ) (reaches_cons c rest offset)
  unfold byteToChar
  rw [List.length_cons, List.range_succ_eq_map, List.countP_cons, first, if_pos rfl,
    List.countP_map, later]

theorem byteToLine_cons :
    byteToLine (c :: rest) (c.utf8Size + offset) =
      byteToLine rest offset + if closesLine (c :: rest) 0 then 1 else 0 := by
  have first : decide (offsetOf (c :: rest) 1 ≤ c.utf8Size + offset) = true :=
    decide_eq_true (Nat.le_add_right c.utf8Size offset)
  unfold byteToLine
  rw [breakEnds_cons]
  split
  · rw [List.countP_cons, first, if_pos rfl, List.countP_map, reaches_cons]
  · rw [List.countP_map, reaches_cons, Nat.add_zero]

/-- The first character ends a line, so all others are one line further down. -/
theorem lineToChar_cons_of_closesLine (closes : closesLine (c :: rest) 0 = true) (line : Nat) :
    lineToChar (c :: rest) (line + 1) = lineToChar rest line + 1 := by
  have moved : 1 :: (breakEnds rest).map (· + 1) = (0 :: breakEnds rest).map (· + 1) := rfl
  unfold lineToChar
  rw [breakEnds_cons, if_pos closes, moved, List.getD_cons_succ]
  exact List.getD_map _ _ (· + 1)

/-- The first character does not end a line, so all others are on the lines they were on. -/
theorem lineToChar_cons_of_not_closesLine (stays : ¬ closesLine (c :: rest) 0 = true) (line : Nat) :
    lineToChar (c :: rest) (line + 1) = lineToChar rest (line + 1) + 1 := by
  unfold lineToChar
  rw [breakEnds_cons, if_neg stays, List.getD_cons_succ, List.getD_cons_succ]
  exact List.getD_map _ _ (· + 1)

end Cons

@[simp]
theorem lineToChar_zero (text : List Char) : lineToChar text 0 = 0 :=
  rfl

/-! ## Places -/

/-- The place of what follows a character: on the next line if the character ends a line. -/
theorem Place.advance_cons (place : Place) (c : Char) (rest : List Char) (count : Nat) :
    place.advance (c :: rest) count =
      if count < c.utf8Size then place
      else (if closesLine (c :: rest) 0 then place.nextLine else place.nextColumn).advance rest
        (count - c.utf8Size) := by
  by_cases pair : c = '\r' ∧ ∃ after, rest = '\n' :: after
  · -- The pair is read in one go, and in two steps the column moved in between does not matter.
    obtain ⟨rfl, after, rfl⟩ := pair
    have stays : closesLine ('\r' :: '\n' :: after) 0 = false := rfl
    have feed : isLineBreak '\n' = true := rfl
    rw [Place.advance, Place.advance, stays, if_neg Bool.false_ne_true, if_pos feed]
    · match count with
      | 0 => rfl
      | 1 => rfl
      | _ + 2 => rfl
    · rintro _ ⟨⟩
  · have closes : closesLine (c :: rest) 0 = isLineBreak c := by
      have single : ((c :: rest)[0]? == some '\r' && (c :: rest)[0 + 1]? == some '\n') = false := by
        cases rest with
        | nil => simp
        | cons next after =>
          simpa using fun isReturn isFeed => pair ⟨isReturn, after, by rw [isFeed]⟩
      rw [closesLine, single, Bool.not_false, Bool.and_true, Bool.eq_iff_iff, isLineBreak_iff]
      exact decide_eq_true_iff
    rw [Place.advance, closes, apply_ite (Place.advance · rest (count - c.utf8Size))]
    rintro after rfl rfl
    exact pair ⟨rfl, after, rfl⟩

/-- Reading on from a place: the breaks that are passed count from its line, and the characters that
are passed count from its column until there is a break, and from the start of the line after
that. -/
theorem Place.advance_eq (place : Place) (text : List Char) (count : Nat) :
    place.advance text count =
        ⟨place.line + byteToLine text count,
          if byteToLine text count = 0 then place.column + byteToChar text count
          else byteToChar text count - lineToChar text (byteToLine text count)⟩ ∧
      lineToChar text (byteToLine text count) ≤ byteToChar text count := by
  induction text generalizing place count with
  | nil => exact ⟨rfl, Nat.le_refl 0⟩
  | cons c rest ih =>
    rw [advance_cons]
    split
    · rename_i inside
      rw [byteToLine_cons_of_lt c rest count inside, byteToChar_cons_of_lt c rest count inside]
      exact ⟨rfl, Nat.le_refl 0⟩
    · rename_i outside
      obtain ⟨left, rfl⟩ := Nat.exists_eq_add_of_le (Nat.le_of_not_lt outside)
      rw [Nat.add_sub_cancel_left, byteToLine_cons, byteToChar_cons]
      split
      · rename_i closes
        obtain ⟨reaches, inOrder⟩ := ih place.nextLine left
        rw [lineToChar_cons_of_closesLine c rest closes, reaches]
        refine ⟨?_, Nat.succ_le_succ inOrder⟩
        rw [if_neg (Nat.succ_ne_zero _), Nat.add_sub_add_right]
        change Place.mk (place.line + 1 + _) _ = _
        congr 1
        · omega
        · split
          · rename_i first
            rw [first, lineToChar_zero, Nat.sub_zero]
            exact Nat.zero_add _
          · rfl
      · rename_i stays
        obtain ⟨reaches, inOrder⟩ := ih place.nextColumn left
        rw [reaches, Nat.add_zero]
        cases passed : byteToLine rest left with
        | zero =>
          refine ⟨?_, Nat.zero_le _⟩
          change Place.mk place.line (place.column + 1 + _) = Place.mk place.line _
          rw [if_pos rfl]
          congr 1
          omega
        | succ line =>
          rw [passed] at inOrder
          rw [lineToChar_cons_of_not_closesLine c rest stays]
          refine ⟨?_, Nat.succ_le_succ inOrder⟩
          rw [Nat.add_sub_add_right]
          rfl

/-- Line and column of an offset are what the structure of the text says. -/
theorem placeOf_eq (text : List Char) (offset : Nat) :
    placeOf text offset =
      ⟨byteToLine text offset,
        byteToChar text offset - lineToChar text (byteToLine text offset)⟩ := by
  rw [placeOf, (Place.advance_eq ⟨0, 0⟩ text offset).1]
  split
  · rename_i first
    simp [first]
  · simp

/-- The line of an offset starts at or before it. -/
theorem lineToChar_le (text : List Char) (offset : Nat) :
    lineToChar text (byteToLine text offset) ≤ byteToChar text offset :=
  (Place.advance_eq ⟨0, 0⟩ text offset).2

/-! ## The order of places -/

theorem byteToChar_of_boundary (before after : List Char) :
    byteToChar (before ++ after) (byteSize before) = before.length := by
  induction before with
  | nil => 
    cases after with
    | nil => rfl
    | cons c rest => exact byteToChar_cons_of_lt c rest 0 c.utf8Size_pos
  | cons c rest ih =>
    rw [List.cons_append, byteSize, byteToChar_cons, ih, List.length_cons]

theorem byteToLine_mono (text : List Char) {first second : Nat} (le : first ≤ second) :
    byteToLine text first ≤ byteToLine text second :=
  List.countP_mono_left fun index _ within => by
    rw [decide_eq_true_eq] at within ⊢
    exact within.trans le

theorem byteSize_le_of_starts {first second : List Char} (within : first <+: second) :
    byteSize first ≤ byteSize second := by
  obtain ⟨more, rfl⟩ := within
  rw [byteSize_append]
  exact Nat.le_add_right _ _

theorem byteToChar_lt {text : List Char} {first second : Nat} (onFirst : Boundary text first)
    (onSecond : Boundary text second) (lt : first < second) :
    byteToChar text first < byteToChar text second := by
  obtain ⟨before, after, rfl, rfl⟩ := onFirst
  obtain ⟨longer, rest, same, rfl⟩ := onSecond
  rw [byteToChar_of_boundary, same, byteToChar_of_boundary]
  by_contra le
  have within : longer <+: before := List.prefix_of_prefix_length_le
    (same ▸ List.prefix_append longer rest) (List.prefix_append before after) (Nat.le_of_not_lt le)
  exact Nat.not_le_of_lt lt (byteSize_le_of_starts within)

/-- Whether a place comes before another, by line and then by column. -/
def Place.Before (first second : Place) : Prop :=
  first.line < second.line ∨ first.line = second.line ∧ first.column < second.column

/-- Places come in the order of the offsets they belong to. -/
theorem placeOf_before {text : List Char} {first second : Nat} (onFirst : Boundary text first)
    (onSecond : Boundary text second) (lt : first < second) :
    (placeOf text first).Before (placeOf text second) := by
  rw [placeOf_eq, placeOf_eq]
  rcases Nat.lt_or_eq_of_le (byteToLine_mono text (Nat.le_of_lt lt)) with later | same
  · exact .inl later
  · have onward := byteToChar_lt onFirst onSecond lt
    have fromStart := lineToChar_le text first
    refine .inr ⟨same, ?_⟩
    change byteToChar text first - _ < byteToChar text second - _
    rw [← same]
    omega

end CirText.Text
