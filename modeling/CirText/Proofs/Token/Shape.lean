import CirText.Text.Blank
import CirText.Token.Shape
import Mathlib

/-!
# Tokens do not depend on what follows

A token ends where the characters stop that can go on it. So it stays the same token if the text
behind it is replaced by one that does not go on a token.
-/

namespace CirText.Shape

/-! ## Breaks -/

/-- Whether a character can go on a token before it. -/
def joins (c : Char) : Bool :=
  isNameChar c || c == '+'

/-- Whether a text does not go on a token before it. -/
def Breaks (text : List Char) : Prop :=
  ∀ c, text.head? = some c → joins c = false

theorem breaks_nil : Breaks [] := by
  rintro _ ⟨⟩

theorem breaks_cons {c : Char} {rest : List Char} (h : joins c = false) : Breaks (c :: rest) := by
  rintro _ ⟨⟩
  exact h

theorem joins_of_isNameChar {c : Char} (h : isNameChar c = true) : joins c = true := by
  rw [joins, h, Bool.true_or]

theorem joins_of_isWordChar {c : Char} (h : isWordChar c = true) : joins c = true := by
  apply joins_of_isNameChar
  rw [isNameChar, h, Bool.true_or]

theorem joins_of_isDigit {c : Char} (h : c.isDigit = true) : joins c = true := by
  apply joins_of_isWordChar
  rw [isWordChar, Char.isAlphanum, h, Bool.or_true, Bool.true_or, Bool.true_or, Bool.true_or]

theorem joins_of_isHexDigit {c : Char} (h : isHexDigit c = true) : joins c = true := by
  apply joins_of_isWordChar
  have alphanumeric : c.isAlphanum = true := by
    unfold isHexDigit Text.Quoted.hexValue? at h
    simp only [Char.isAlphanum, Char.isAlpha, Char.isUpper, Char.isLower, Char.isDigit,
      Bool.or_eq_true, Bool.and_eq_true, decide_eq_true_eq]
    have range : ∀ {low high : Char}, (decide (low ≤ c) && decide (c ≤ high)) = true →
        low.val ≤ c.val ∧ c.val ≤ high.val := by
      intro low high both
      simpa [Char.le_def] using both
    split at h
    · exact .inr (range ‹_›)
    · split at h
      · have between := range ‹_›
        refine .inl (.inr ⟨between.1, Nat.le_trans between.2 (by decide)⟩)
      · split at h
        · have between := range ‹_›
          refine .inl (.inl ⟨between.1, Nat.le_trans between.2 (by decide)⟩)
        · cases h
  rw [isWordChar, alphanumeric, Bool.true_or, Bool.true_or, Bool.true_or]

/-! ## Runs of characters -/

section Runs

variable {inClass : Char → Bool} (joining : ∀ {c}, inClass c = true → joins c = true)
  {text rest later : List Char} (breaks : Breaks later)

include joining breaks

/-- A run that ends inside a text stays the same if what is behind the text is replaced. -/
theorem takeWhile_congr (inside : ((text ++ rest).takeWhile inClass).length ≤ text.length) :
    (text ++ later).takeWhile inClass = (text ++ rest).takeWhile inClass := by
  induction text with
  | nil =>
    have none : rest.takeWhile inClass = [] := List.length_eq_zero_iff.1 (Nat.le_zero.1 inside)
    rw [List.nil_append, List.nil_append, none]
    cases later with
    | nil => rfl
    | cons c later =>
      have outside : inClass c = false := by
        cases isIn : inClass c with
        | false => rfl
        | true => exact (joining isIn).symm.trans (breaks c rfl)
      rw [List.takeWhile_cons, outside]
      rfl
  | cons c text ih =>
    simp only [List.cons_append, List.takeWhile_cons] at inside ih ⊢
    split
    · rename_i isIn
      rw [if_pos isIn, List.length_cons, List.length_cons] at inside
      rw [ih (Nat.le_of_succ_le_succ inside)]
    · rfl

theorem runLength_congr (inside : runLength inClass (text ++ rest) ≤ text.length) :
    runLength inClass (text ++ later) = runLength inClass (text ++ rest) :=
  congrArg List.length (takeWhile_congr joining breaks inside)

theorem run?_congr
    (inside : ∀ count, run? inClass (text ++ rest) = some count → count ≤ text.length) :
    run? inClass (text ++ later) = run? inClass (text ++ rest) := by
  have short : runLength inClass (text ++ rest) ≤ text.length := by
    unfold run? at inside
    by_cases none : runLength inClass (text ++ rest) = 0
    · rw [none]
      exact Nat.zero_le _
    · exact inside _ (if_neg none)
  rw [run?, run?, runLength_congr joining breaks short]

end Runs

theorem run?_eq_none {inClass : Char → Bool} (joining : ∀ {c}, inClass c = true → joins c = true)
    {later : List Char} (breaks : Breaks later) : run? inClass later = none := by
  have congr := @run?_congr _ @joining [] [] _ breaks
  exact congr (by rintro _ ⟨⟩)

theorem run?_pos {inClass : Char → Bool} {text : List Char} {count : Nat}
    (found : run? inClass text = some count) : 0 < count := by
  unfold run? at found
  dsimp only at found
  split at found
  · cases found
  · rename_i some
    cases found
    exact Nat.pos_of_ne_zero some

/-! ## Numbers -/

/-- The length of the sign of an exponent. -/
def signLength : List Char → Nat
  | sign :: _ => if sign = '+' || sign = '-' then 1 else 0
  | [] => 0

theorem signLength_le (text : List Char) : signLength text ≤ text.length := by
  cases text with
  | nil => exact Nat.le_refl 0
  | cons sign text =>
    change (if _ then 1 else 0) ≤ text.length + 1
    split <;> omega

theorem exponentLength_cons (mark : Char) (rest : List Char) :
    exponentLength (mark :: rest) =
      if mark = 'e' || mark = 'E' then
        ((run? Char.isDigit (rest.drop (signLength rest))).map (1 + signLength rest + ·)).getD 0
      else 0 := by
  unfold exponentLength
  dsimp only
  split
  · split
    · rename_i digits found
      rw [show run? Char.isDigit (rest.drop (signLength rest)) = some digits from found]
      rfl
    · rename_i found
      rw [show run? Char.isDigit (rest.drop (signLength rest)) = none from found]
      rfl
  · rfl

theorem fraction?_point (rest : List Char) :
    fraction? ('.' :: rest) =
      (run? Char.isDigit rest).map fun digits => 1 + digits + exponentLength (rest.drop digits) :=
  rfl

theorem fraction?_other {c : Char} (other : c ≠ '.') (rest : List Char) :
    fraction? (c :: rest) = none := by
  unfold fraction?
  split
  · rename_i same
    exact absurd (List.cons.inj same).1 other
  · rfl

theorem number?_of_hexadecimal? {text : List Char} {found : TokenKind × Nat}
    (hex : hexadecimal? text = some found) : number? text = some found := by
  unfold number?
  rw [hex]
  rfl

theorem number?_negative {rest : List Char} (notHex : hexadecimal? ('-' :: rest) = none) :
    number? ('-' :: rest) = (decimal? rest).map fun (kind, length) => (kind, length + 1) := by
  unfold number?
  rw [notHex]
  rfl

theorem number?_positive {c : Char} {rest : List Char} (positive : c ≠ '-')
    (notHex : hexadecimal? (c :: rest) = none) : number? (c :: rest) = decimal? (c :: rest) := by
  unfold number?
  rw [notHex]
  split
  · rename_i same
    exact absurd (List.cons.inj same).1 positive
  · rfl

section Numbers

variable {text rest later : List Char} (breaks : Breaks later)

include breaks

theorem head_ne_of_joins {c : Char} (joining : joins c = true) {others : List Char} :
    later ≠ c :: others := by
  rintro rfl
  exact Bool.false_ne_true ((breaks c rfl).symm.trans joining)

theorem signLength_eq_zero : signLength later = 0 := by
  cases later with
  | nil => rfl
  | cons sign later =>
    have plus : sign ≠ '+' := by
      rintro rfl
      exact head_ne_of_joins breaks (by decide) rfl
    have minus : sign ≠ '-' := by
      rintro rfl
      exact head_ne_of_joins breaks (by decide) rfl
    simp [signLength, plus, minus]

theorem exponentLength_eq_zero : exponentLength later = 0 := by
  cases later with
  | nil => rfl
  | cons mark later =>
    have lower : mark ≠ 'e' := by
      rintro rfl
      exact head_ne_of_joins breaks (by decide) rfl
    have upper : mark ≠ 'E' := by
      rintro rfl
      exact head_ne_of_joins breaks (by decide) rfl
    simp [exponentLength_cons, lower, upper]

theorem exponentLength_congr (inside : exponentLength (text ++ rest) ≤ text.length) :
    exponentLength (text ++ later) = exponentLength (text ++ rest) := by
  cases text with
  | nil =>
    rw [List.nil_append, exponentLength_eq_zero breaks]
    exact (Nat.le_zero.1 inside).symm
  | cons mark text =>
    rw [List.cons_append, List.cons_append, exponentLength_cons, exponentLength_cons]
    rw [List.cons_append, exponentLength_cons, List.length_cons] at inside
    split
    · rename_i isMark
      rw [if_pos isMark] at inside
      cases text with
      | nil =>
        -- Digits would have to follow the mark, which is all that there is room for.
        rw [List.nil_append, signLength_eq_zero breaks, List.drop_zero,
          run?_eq_none joins_of_isDigit breaks]
        rw [List.nil_append] at inside ⊢
        cases found : run? Char.isDigit (rest.drop (signLength rest)) with
        | none => rfl
        | some digits =>
          have := run?_pos found
          rw [found, Option.map_some, Option.getD_some, List.length_nil] at inside
          omega
      | cons sign text =>
        have same : ∀ more, signLength (sign :: text ++ more) = signLength (sign :: text) :=
          fun _ => rfl
        have short := signLength_le (sign :: text)
        rw [same, same, List.drop_append_of_le_length short, List.drop_append_of_le_length short]
        rw [same, List.drop_append_of_le_length short] at inside
        rw [run?_congr joins_of_isDigit breaks]
        intro count found
        rw [found, Option.map_some, Option.getD_some] at inside
        rw [List.length_drop]
        omega
    · rfl

theorem fraction?_eq_none : fraction? later = none := by
  cases later with
  | nil => rfl
  | cons c later =>
    apply fraction?_other
    rintro rfl
    exact head_ne_of_joins breaks (by decide) rfl

theorem fraction?_congr
    (inside : ∀ count, fraction? (text ++ rest) = some count → count ≤ text.length) :
    fraction? (text ++ later) = fraction? (text ++ rest) := by
  cases text with
  | nil =>
    rw [List.nil_append, fraction?_eq_none breaks, List.nil_append]
    cases found : fraction? rest with
    | none => rfl
    | some count =>
      have none := Nat.le_zero.1 (inside count found)
      unfold fraction? at found
      split at found
      · obtain ⟨digits, _, same⟩ := Option.map_eq_some_iff.1 found
        omega
      · cases found
  | cons c text =>
    by_cases point : c = '.'
    · subst point
      rw [List.cons_append, List.cons_append, fraction?_point, fraction?_point]
      rw [List.cons_append, fraction?_point, List.length_cons] at inside
      have digitsInside : ∀ count, run? Char.isDigit (text ++ rest) = some count →
          count ≤ text.length := by
        intro count found
        have all := inside _ (congrArg _ found)
        dsimp only at all
        omega
      rw [run?_congr joins_of_isDigit breaks digitsInside]
      cases found : run? Char.isDigit (text ++ rest) with
      | none => rfl
      | some digits =>
        have short := digitsInside digits found
        have all := inside _ (congrArg _ found)
        simp only [List.drop_append_of_le_length short] at all
        rw [Option.map_some, Option.map_some, List.drop_append_of_le_length short,
          List.drop_append_of_le_length short, exponentLength_congr breaks]
        rw [List.length_drop]
        omega
    · rw [List.cons_append, List.cons_append, fraction?_other point, fraction?_other point]

theorem decimal?_congr
    (inside : ∀ found, decimal? (text ++ rest) = some found → found.2 ≤ text.length) :
    decimal? (text ++ later) = decimal? (text ++ rest) := by
  unfold decimal? at inside ⊢
  have digitsInside : ∀ count, run? Char.isDigit (text ++ rest) = some count →
      count ≤ text.length := by
    intro count found
    rw [found] at inside
    have all := inside _ rfl
    cases more : fraction? ((text ++ rest).drop count) with
    | none => simpa only [more] using all
    | some length =>
      simp only [more] at all
      omega
  rw [run?_congr joins_of_isDigit breaks digitsInside]
  cases found : run? Char.isDigit (text ++ rest) with
  | none => rfl
  | some digits =>
    have short := digitsInside digits found
    rw [found] at inside
    have all := inside _ rfl
    simp only [List.drop_append_of_le_length short, Option.map_some] at all ⊢
    rw [fraction?_congr breaks]
    intro count more
    rw [more] at all
    rw [List.length_drop]
    dsimp only at all
    omega

theorem hexadecimal?_congr
    (inside : ∀ found, hexadecimal? (text ++ rest) = some found → found.2 ≤ text.length)
    (nonempty : text ≠ []) :
    hexadecimal? (text ++ later) = hexadecimal? (text ++ rest) := by
  match text with
  | [] => exact absurd rfl nonempty
  | [c] =>
    have none : ∀ more, (∀ found, hexadecimal? (c :: more) = some found → found.2 ≤ 1) →
        hexadecimal? (c :: more) = none := by
      intro more short
      cases found : hexadecimal? (c :: more) with
      | none => rfl
      | some number =>
        have := short number found
        unfold hexadecimal? at found
        split at found
        · obtain ⟨digits, _, same⟩ := Option.map_eq_some_iff.1 found
          rw [← same] at this
          dsimp only at this
          omega
        · cases found
    have before := none rest inside
    have after : hexadecimal? (c :: later) = Option.none := by
      unfold hexadecimal?
      split
      · rename_i digits same
        obtain ⟨_, rfl⟩ := List.cons.inj same
        exact absurd rfl (head_ne_of_joins breaks (by decide))
      · rfl
    exact after.trans before.symm
  | c :: x :: text =>
    by_cases isPrefix : c = '0' ∧ x = 'x'
    · obtain ⟨rfl, rfl⟩ := isPrefix
      have split : ∀ more, hexadecimal? ('0' :: 'x' :: text ++ more) =
          (run? isHexDigit (text ++ more)).map fun digits => (.integer, digits + 2) := fun _ => rfl
      rw [split] at inside
      rw [split, split, run?_congr joins_of_isHexDigit breaks]
      intro count found
      rw [found] at inside
      exact Nat.le_of_add_le_add_right (inside _ rfl)
    · have none : ∀ more, hexadecimal? (c :: x :: text ++ more) = none := by
        intro more
        unfold hexadecimal?
        split
        · rename_i digits same
          obtain ⟨zero, same⟩ := List.cons.inj same
          exact absurd ⟨zero, (List.cons.inj same).1⟩ isPrefix
        · rfl
      rw [none, none]

theorem number?_congr
    (inside : ∀ found, number? (text ++ rest) = some found → found.2 ≤ text.length)
    (nonempty : text ≠ []) : number? (text ++ later) = number? (text ++ rest) := by
  have hexInside : ∀ found, hexadecimal? (text ++ rest) = some found → found.2 ≤ text.length :=
    fun found isHex => inside found (number?_of_hexadecimal? isHex)
  have sameHex := hexadecimal?_congr breaks hexInside nonempty
  cases hex : hexadecimal? (text ++ rest) with
  | some found =>
    rw [number?_of_hexadecimal? hex, number?_of_hexadecimal? (sameHex.trans hex)]
  | none =>
    obtain ⟨c, text, rfl⟩ := List.exists_cons_of_ne_nil nonempty
    rw [hex] at sameHex
    rw [List.cons_append] at inside hex sameHex ⊢
    by_cases minus : c = '-'
    · subst minus
      rw [number?_negative hex] at inside
      rw [List.cons_append, number?_negative hex, number?_negative sameHex, decimal?_congr breaks]
      intro found isDecimal
      exact Nat.le_of_succ_le_succ (inside _ (congrArg _ isDecimal))
    · rw [number?_positive minus hex] at inside
      rw [List.cons_append, number?_positive minus hex, number?_positive minus sameHex]
      exact @decimal?_congr (c :: text) rest later breaks inside

end Numbers

/-! ## Strings -/

theorem closingQuote?_escape (c : Char) (rest : List Char) :
    closingQuote? ('\\' :: c :: rest) = (closingQuote? rest).map (· + 2) :=
  rfl

theorem closingQuote?_other {c : Char} (other : c ≠ '\\') (rest : List Char) :
    closingQuote? (c :: rest) =
      if c = '"' then some 1
      else if c = '\n' then none
      else (closingQuote? rest).map (· + 1) := by
  rw [closingQuote?]
  · rintro rfl
    exact absurd rfl other
  · rintro _ _ rfl
    exact absurd rfl other

theorem closingQuote?_pos {text : List Char} {count : Nat}
    (found : closingQuote? text = some count) : 0 < count := by
  unfold closingQuote? at found
  split at found
  · cases found
  · cases found
  · obtain ⟨more, _, rfl⟩ := Option.map_eq_some_iff.1 found
    exact Nat.succ_pos _
  · split at found
    · cases found
      exact Nat.one_pos
    · split at found
      · cases found
      · obtain ⟨more, _, rfl⟩ := Option.map_eq_some_iff.1 found
        exact Nat.succ_pos _

/-- What stands behind the closing quote does not matter. -/
theorem closingQuote?_append {rest : List Char} (later : List Char) (text : List Char) {count : Nat}
    (found : closingQuote? (text ++ rest) = some count) (inside : count ≤ text.length) :
    closingQuote? (text ++ later) = some count := by
  match text with
  | [] => exact absurd (closingQuote?_pos found) (Nat.not_lt.2 inside)
  | c :: text =>
    rw [List.cons_append] at found ⊢
    by_cases escape : c = '\\'
    · subst escape
      cases text with
      | nil =>
        cases rest with
        | nil => cases found
        | cons d rest =>
          obtain ⟨more, _, rfl⟩ := Option.map_eq_some_iff.1 found
          simp at inside
      | cons d text =>
        obtain ⟨more, foundMore, rfl⟩ := Option.map_eq_some_iff.1 found
        have insideMore := Nat.le_of_add_le_add_right inside
        rw [List.cons_append, closingQuote?_escape,
          closingQuote?_append later text foundMore insideMore]
        rfl
    · rw [closingQuote?_other escape] at found ⊢
      split
      · rename_i quote
        rwa [if_pos quote] at found
      · rename_i noQuote
        rw [if_neg noQuote] at found
        split
        · rename_i lineFeed
          rwa [if_pos lineFeed] at found
        · rename_i noLineFeed
          rw [if_neg noLineFeed] at found
          obtain ⟨more, foundMore, rfl⟩ := Option.map_eq_some_iff.1 found
          rw [closingQuote?_append later text foundMore (Nat.le_of_add_le_add_right inside)]
          rfl
termination_by text.length

theorem string?_pos {text : List Char} {count : Nat} (found : string? text = some count) :
    0 < count := by
  unfold string? at found
  split at found
  · obtain ⟨more, _, rfl⟩ := Option.map_eq_some_iff.1 found
    exact Nat.succ_pos _
  · cases found

theorem string?_append {rest : List Char} (later : List Char) {text : List Char} {count : Nat}
    (found : string? (text ++ rest) = some count) (inside : count ≤ text.length)
    (nonempty : text ≠ []) : string? (text ++ later) = some count := by
  obtain ⟨c, text, rfl⟩ := List.exists_cons_of_ne_nil nonempty
  rw [List.cons_append] at found ⊢
  unfold string? at found
  split at found
  · rename_i inner same
    obtain ⟨rfl, rfl⟩ := List.cons.inj same
    obtain ⟨more, foundMore, rfl⟩ := Option.map_eq_some_iff.1 found
    rw [string?, closingQuote?_append later text foundMore (Nat.le_of_add_le_add_right inside)]
    rfl
  · cases found

theorem string?_other {c : Char}
    (other : c ≠ '"') (rest : List Char) : string? (c :: rest) = none := by
  unfold string?
  split
  · rename_i same
    exact absurd (List.cons.inj same).1 other
  · rfl

/-! ## Punctuation marks -/

theorem punct?_eq_some_iff {text : List Char} {mark : Punct} {count : Nat} :
    punct? text = some (mark, count) ↔
      mark.text.toList <+: text ∧ count = mark.text.toList.length := by
  constructor
  · intro found
    unfold punct? at found
    split at found <;> cases found
    all_goals exact ⟨⟨_, rfl⟩, rfl⟩
  · rintro ⟨⟨rest, rfl⟩, rfl⟩
    cases mark <;> rfl

/-- A punctuation mark ends by itself. -/
theorem punct?_append {text rest : List Char} (later : List Char) {mark : Punct} {count : Nat}
    (found : punct? (text ++ rest) = some (mark, count)) (inside : count ≤ text.length) :
    punct? (text ++ later) = some (mark, count) := by
  obtain ⟨starts, rfl⟩ := punct?_eq_some_iff.1 found
  have starts := List.prefix_of_prefix_length_le starts (List.prefix_append text rest) inside
  exact punct?_eq_some_iff.2 ⟨starts.trans (List.prefix_append text later), rfl⟩

/-- Only the arrow and the ellipsis have more than one character. -/
theorem punct?_congr {c : Char} (noMinus : c ≠ '-') (noPoint : c ≠ '.') (rest later : List Char) :
    punct? (c :: later) = punct? (c :: rest) := by
  have moves : ∀ {rest later found}, punct? (c :: rest) = some found →
      punct? (c :: later) = some found := by
    rintro rest later ⟨mark, count⟩ found
    obtain ⟨⟨others, same⟩, rfl⟩ := punct?_eq_some_iff.1 found
    cases mark with
    | arrow => exact absurd (List.cons.inj same).1.symm noMinus
    | ellipsis => exact absurd (List.cons.inj same).1.symm noPoint
    | _ =>
      obtain rfl := (List.cons.inj same).1
      rfl
  exact Option.ext fun found => ⟨moves, moves⟩

/-! ## Names and words -/

section Names

variable {text rest later : List Char} (breaks : Breaks later)

include breaks

theorem sigil?_congr (sigil : Char) {inClass : Char → Bool}
    (joining : ∀ {c}, inClass c = true → joins c = true)
    (inside : ∀ count, sigil? sigil inClass (text ++ rest) = some count → count ≤ text.length)
    (nonempty : text ≠ []) :
    sigil? sigil inClass (text ++ later) = sigil? sigil inClass (text ++ rest) := by
  obtain ⟨c, text, rfl⟩ := List.exists_cons_of_ne_nil nonempty
  simp only [List.cons_append, sigil?] at inside ⊢
  split
  · rename_i here
    rw [if_pos here] at inside
    rw [run?_congr joining breaks]
    intro count found
    exact Nat.le_of_succ_le_succ (inside _ (congrArg _ found))
  · rfl

theorem word?_congr
    (inside : ∀ found, word? (text ++ rest) = some found → found.2 ≤ text.length)
    (nonempty : text ≠ []) : word? (text ++ later) = word? (text ++ rest) := by
  obtain ⟨c, text, rfl⟩ := List.exists_cons_of_ne_nil nonempty
  simp only [List.cons_append, word?] at inside ⊢
  split
  · rename_i starts
    rw [if_pos starts] at inside
    have short := Nat.le_of_succ_le_succ (inside _ rfl)
    rw [takeWhile_congr joins_of_isWordChar breaks short]
  · rfl

theorem symbol?_append {count : Nat} (found : symbol? (text ++ rest) = some count)
    (inside : count ≤ text.length) (nonempty : text ≠ []) :
    symbol? (text ++ later) = some count := by
  obtain ⟨c, text, rfl⟩ := List.exists_cons_of_ne_nil nonempty
  rw [List.cons_append] at found ⊢
  unfold symbol? at found
  split at found
  · rename_i inner same
    obtain ⟨rfl, rfl⟩ := List.cons.inj same
    obtain ⟨more, foundMore, rfl⟩ := Option.map_eq_some_iff.1 found
    have short : more ≤ text.length := Nat.le_of_succ_le_succ inside
    rw [symbol?]
    cases quoted : string? (text ++ rest) with
    | some count =>
      rw [quoted] at foundMore
      obtain rfl : count = more := Option.some.inj foundMore
      have nonempty := List.ne_nil_of_length_pos (Nat.lt_of_lt_of_le (string?_pos quoted) short)
      rw [string?_append later quoted short nonempty]
      rfl
    | none =>
      rw [quoted] at foundMore
      replace foundMore : run? isNameChar (text ++ rest) = some more := foundMore
      have nonempty := List.ne_nil_of_length_pos (Nat.lt_of_lt_of_le (run?_pos foundMore) short)
      obtain ⟨d, text, rfl⟩ := List.exists_cons_of_ne_nil nonempty
      have noQuote : d ≠ '"' := by
        rintro rfl
        cases foundMore
      have same : run? isNameChar (d :: text ++ later) = run? isNameChar (d :: text ++ rest) := by
        apply run?_congr joins_of_isNameChar breaks
        intro count found
        rw [foundMore] at found
        cases found
        exact short
      rw [List.cons_append] at same ⊢
      rw [string?_other noQuote, same, foundMore]
      rfl
  · cases found

end Names

/-! ## Tokens -/

/-- Of two recognisers in a row each one is asked only for what it finds itself. -/
theorem orElse_congr {α : Type} {first second first' second' : Option α} {holds : α → Prop}
    (all : ∀ found, (first <|> second) = some found → holds found)
    (sameFirst : (∀ found, first = some found → holds found) → first' = first)
    (sameSecond : (∀ found, second = some found → holds found) → second' = second) :
    (first' <|> second') = (first <|> second) := by
  cases first with
  | some found =>
    rw [sameFirst fun other same => all other (congrArg (· <|> second) same)]
    rfl
  | none =>
    rw [sameFirst (by rintro _ ⟨⟩), sameSecond fun other same => all other same]

theorem map_congr {α β : Type} {f : α → β} {first first' : Option α} {holds : β → Prop}
    (all : ∀ found, first.map f = some found → holds found)
    (same : (∀ found, first = some found → holds (f found)) → first' = first) :
    first'.map f = first.map f := by
  rw [same fun found this => all _ (congrArg _ this)]

theorem recognize_quote (rest : List Char) :
    recognize ('"' :: rest) = (string? ('"' :: rest)).map (.string, ·) := by
  unfold recognize
  cases string? ('"' :: rest) <;> rfl

theorem recognize_minus (rest : List Char) :
    recognize ('-' :: rest) =
      (number? ('-' :: rest) <|>
        (punct? ('-' :: rest)).map (fun (mark, length) => (.punct mark, length))) := by
  unfold recognize
  cases number? ('-' :: rest) <;> cases punct? ('-' :: rest) <;> rfl

theorem recognize_point (rest : List Char) :
    recognize ('.' :: rest) =
      (punct? ('.' :: rest)).map (fun (mark, length) => (.punct mark, length)) := by
  unfold recognize
  cases punct? ('.' :: rest) <;> rfl

theorem recognize_at (rest : List Char) :
    recognize ('@' :: rest) = (symbol? ('@' :: rest)).map (.symbol, ·) := by
  unfold recognize
  cases symbol? ('@' :: rest) <;> rfl

section Tokens

variable {text rest later : List Char} (breaks : Breaks later)

include breaks

/-- A token stays the same if what is behind it is replaced by a text that does not go on it. -/
theorem recognize_append {kind : TokenKind} {count : Nat}
    (found : recognize (text ++ rest) = some (kind, count)) (inside : count ≤ text.length)
    (nonempty : text ≠ []) : recognize (text ++ later) = some (kind, count) := by
  obtain ⟨c, text, rfl⟩ := List.exists_cons_of_ne_nil nonempty
  by_cases quote : c = '"'
  · subst quote
    rw [List.cons_append, recognize_quote] at found ⊢
    obtain ⟨count, isString, same⟩ := Option.map_eq_some_iff.1 found
    cases same
    rw [← List.cons_append, string?_append later isString inside nonempty]
    rfl
  by_cases symbol : c = '@'
  · subst symbol
    rw [List.cons_append, recognize_at] at found ⊢
    obtain ⟨count, isSymbol, same⟩ := Option.map_eq_some_iff.1 found
    cases same
    rw [← List.cons_append, symbol?_append breaks isSymbol inside nonempty]
    rfl
  by_cases point : c = '.'
  · subst point
    rw [List.cons_append, recognize_point] at found ⊢
    obtain ⟨⟨mark, count⟩, isMark, same⟩ := Option.map_eq_some_iff.1 found
    cases same
    rw [← List.cons_append, punct?_append later isMark inside]
    rfl
  by_cases minus : c = '-'
  · subst minus
    rw [List.cons_append, recognize_minus] at found ⊢
    have same : number? ('-' :: text ++ later) = number? ('-' :: text ++ rest) := by
      apply number?_congr breaks _ nonempty
      intro number isNumber
      rw [List.cons_append] at isNumber
      rw [isNumber] at found
      rw [Option.some.inj found]
      exact inside
    rw [List.cons_append, List.cons_append] at same
    rw [same]
    cases isNumber : number? ('-' :: (text ++ rest)) with
    | some number =>
      rw [isNumber] at found
      exact found
    | none =>
      rw [isNumber] at found
      obtain ⟨⟨mark, count⟩, isMark, same⟩ := Option.map_eq_some_iff.1 found
      cases same
      rw [← List.cons_append, punct?_append later isMark inside]
      rfl
  rw [← found]
  have noString : ∀ more, string? (c :: text ++ more) = none := fun _ => string?_other quote _
  have noSymbol : ∀ more, symbol? (c :: text ++ more) = none := by
    intro more
    unfold symbol?
    split
    · rename_i same
      exact absurd (List.cons.inj same).1 symbol
    · rfl
  have all : ∀ other, recognize (c :: text ++ rest) = some other →
      other.2 ≤ (c :: text).length := by
    intro other same
    rw [found] at same
    cases same
    exact inside
  unfold recognize at all ⊢
  rw [noString, noSymbol] at all ⊢
  rw [noString, noSymbol]
  refine orElse_congr all (fun _ => rfl) fun all => ?_
  refine orElse_congr all (fun all => number?_congr breaks all nonempty) fun all => ?_
  refine orElse_congr all (fun _ => congrArg _ (punct?_congr minus point _ _)) fun all => ?_
  refine orElse_congr all (fun all => map_congr all fun all =>
    sigil?_congr breaks '%' joins_of_isNameChar all nonempty) fun all => ?_
  refine orElse_congr all (fun all => map_congr all fun all =>
    sigil?_congr breaks '^' joins_of_isNameChar all nonempty) fun all => ?_
  refine orElse_congr all (fun _ => rfl) fun all => ?_
  refine orElse_congr all (fun all => map_congr all fun all =>
    sigil?_congr breaks '!' joins_of_isWordChar all nonempty) fun all => ?_
  refine orElse_congr all (fun all => map_congr all fun all =>
    sigil?_congr breaks '#' joins_of_isWordChar all nonempty) fun all => ?_
  exact word?_congr breaks all nonempty

end Tokens

/-! ## Lengths -/

/-- Whether a number of characters is that of a token at the start of a text. -/
def Fits (text : List Char) (count : Nat) : Prop :=
  0 < count ∧ count ≤ text.length

theorem run?_fits {inClass : Char → Bool} {text : List Char} {count : Nat}
    (found : run? inClass text = some count) : Fits text count := by
  refine ⟨run?_pos found, ?_⟩
  unfold run? at found
  dsimp only at found
  split at found
  · cases found
  · cases found
    exact (List.takeWhile_prefix inClass).length_le

theorem closingQuote?_fits : ∀ {text : List Char} {count : Nat},
    closingQuote? text = some count → Fits text count
  | [], _, found => nomatch found
  | c :: text, count, found => by
    refine ⟨closingQuote?_pos found, ?_⟩
    by_cases escape : c = '\\'
    · subst escape
      cases text with
      | nil => cases found
      | cons d text =>
        obtain ⟨more, foundMore, rfl⟩ := Option.map_eq_some_iff.1 found
        have := (closingQuote?_fits foundMore).2
        simpa using this
    · rw [closingQuote?_other escape] at found
      split at found
      · cases found
        exact Nat.succ_le_succ (Nat.zero_le _)
      · split at found
        · cases found
        · obtain ⟨more, foundMore, rfl⟩ := Option.map_eq_some_iff.1 found
          exact Nat.succ_le_succ (closingQuote?_fits foundMore).2

theorem exponentLength_le (text : List Char) : exponentLength text ≤ text.length := by
  cases text with
  | nil => exact Nat.le_refl 0
  | cons mark rest =>
    rw [exponentLength_cons]
    split
    · cases found : run? Char.isDigit (rest.drop (signLength rest)) with
      | none => exact Nat.zero_le _
      | some digits =>
        have bound := (run?_fits found).2
        have sign := signLength_le rest
        rw [List.length_drop] at bound
        rw [Option.map_some, Option.getD_some, List.length_cons]
        omega
    · exact Nat.zero_le _

theorem decimal?_fits {text : List Char} {found : TokenKind × Nat}
    (isDecimal : decimal? text = some found) : Fits text found.2 := by
  obtain ⟨digits, isRun, rfl⟩ := Option.map_eq_some_iff.1 isDecimal
  have run := run?_fits isRun
  split
  · rename_i more isFraction
    unfold fraction? at isFraction
    split at isFraction
    · rename_i rest same
      obtain ⟨places, isPlaces, rfl⟩ := Option.map_eq_some_iff.1 isFraction
      have bound := (run?_fits isPlaces).2
      have exponent := exponentLength_le (rest.drop places)
      have total := congrArg List.length same
      simp only [List.length_drop, List.length_cons] at exponent total
      refine ⟨Nat.lt_of_lt_of_le run.1 (Nat.le_add_right _ _), ?_⟩
      dsimp only
      omega
    · cases isFraction
  · exact run

theorem number?_fits {text : List Char} {found : TokenKind × Nat}
    (isNumber : number? text = some found) : Fits text found.2 := by
  cases hex : hexadecimal? text with
  | some number =>
    obtain rfl := Option.some.inj ((number?_of_hexadecimal? hex).symm.trans isNumber)
    unfold hexadecimal? at hex
    split at hex
    · obtain ⟨digits, isRun, rfl⟩ := Option.map_eq_some_iff.1 hex
      have bound := (run?_fits isRun).2
      exact ⟨Nat.succ_pos _, Nat.succ_le_succ (Nat.succ_le_succ bound)⟩
    · cases hex
  | none =>
    unfold number? at isNumber
    rw [hex, Option.orElse_eq_orElse, Option.orElse_eq_or, Option.none_or] at isNumber
    split at isNumber
    · obtain ⟨number, isDecimal, rfl⟩ := Option.map_eq_some_iff.1 isNumber
      exact ⟨Nat.succ_pos _, Nat.succ_le_succ (decimal?_fits isDecimal).2⟩
    · exact decimal?_fits isNumber

theorem string?_fits {text : List Char} {count : Nat} (found : string? text = some count) :
    Fits text count := by
  unfold string? at found
  split at found
  · obtain ⟨more, isClosing, rfl⟩ := Option.map_eq_some_iff.1 found
    exact ⟨Nat.succ_pos _, Nat.succ_le_succ (closingQuote?_fits isClosing).2⟩
  · cases found

theorem sigil?_fits {sigil : Char} {inClass : Char → Bool} {text : List Char} {count : Nat}
    (found : sigil? sigil inClass text = some count) : Fits text count := by
  unfold sigil? at found
  split at found
  · split at found
    · obtain ⟨more, isRun, rfl⟩ := Option.map_eq_some_iff.1 found
      exact ⟨Nat.succ_pos _, Nat.succ_le_succ (run?_fits isRun).2⟩
    · cases found
  · cases found

theorem symbol?_fits {text : List Char} {count : Nat} (found : symbol? text = some count) :
    Fits text count := by
  unfold symbol? at found
  split at found
  · rename_i rest
    obtain ⟨more, isName, rfl⟩ := Option.map_eq_some_iff.1 found
    refine ⟨Nat.succ_pos _, Nat.succ_le_succ ?_⟩
    cases quoted : string? rest with
    | some count =>
      rw [quoted] at isName
      obtain rfl : count = more := Option.some.inj isName
      exact (string?_fits quoted).2
    | none =>
      rw [quoted] at isName
      exact (@run?_fits isNameChar _ _ isName).2
  · cases found

theorem word?_fits {text : List Char} {found : TokenKind × Nat} (isWord : word? text = some found) :
    Fits text found.2 := by
  unfold word? at isWord
  split at isWord
  · split at isWord
    · cases isWord
      exact ⟨Nat.succ_pos _, Nat.succ_le_succ (List.takeWhile_prefix isWordChar).length_le⟩
    · cases isWord
  · cases isWord

/-! ## What tokens look like -/

theorem number?_kind {text : List Char} {kind : TokenKind} {count : Nat}
    (found : number? text = some (kind, count)) : kind = .integer ∨ kind = .float := by
  have decimal : ∀ {text found}, decimal? text = some found →
      found.1 = .integer ∨ found.1 = .float := by
    intro text found isDecimal
    obtain ⟨digits, _, rfl⟩ := Option.map_eq_some_iff.1 isDecimal
    split
    · exact .inr rfl
    · exact .inl rfl
  cases hex : hexadecimal? text with
  | some number =>
    obtain rfl := Option.some.inj ((number?_of_hexadecimal? hex).symm.trans found)
    unfold hexadecimal? at hex
    split at hex
    · obtain ⟨digits, _, same⟩ := Option.map_eq_some_iff.1 hex
      exact .inl (congrArg Prod.fst same).symm
    · cases hex
  | none =>
    unfold number? at found
    rw [hex, Option.orElse_eq_orElse, Option.orElse_eq_or, Option.none_or] at found
    split at found
    · obtain ⟨number, isDecimal, same⟩ := Option.map_eq_some_iff.1 found
      cases same
      exact decimal isDecimal
    · exact decimal found

/-- What a token of a class looks like at the start of a text. -/
def Shaped (text : List Char) : TokenKind → Nat → Prop
  | .string, count => string? text = some count
  | .integer, count => number? text = some (.integer, count)
  | .float, count => number? text = some (.float, count)
  | .punct mark, count => punct? text = some (mark, count)
  | .value, count => sigil? '%' isNameChar text = some count
  | .label, count => sigil? '^' isNameChar text = some count
  | .symbol, count => symbol? text = some count
  | .typeName, count => sigil? '!' isWordChar text = some count
  | .attributeName, count => sigil? '#' isWordChar text = some count
  | .keyword, count => word? text = some (.keyword, count)
  | .identifier, count => word? text = some (.identifier, count)
  | .endOfInput, _ => False

theorem shaped_of_recognize {text : List Char} {kind : TokenKind} {count : Nat}
    (found : recognize text = some (kind, count)) : Shaped text kind count := by
  have either : ∀ {α : Type} {first second : Option α} {a : α}, (first <|> second) = some a →
      first = some a ∨ second = some a := by
    intro α first second a some
    cases first with
    | none => exact .inr some
    | some b => exact .inl some
  have mapped : ∀ {class_ : TokenKind} {lengths : Option Nat},
      lengths.map (class_, ·) = some (kind, count) → kind = class_ ∧ lengths = some count := by
    intro class_ lengths some
    obtain ⟨length, found, same⟩ := Option.map_eq_some_iff.1 some
    cases same
    exact ⟨rfl, found⟩
  unfold recognize at found
  rcases either found with isString | found
  · obtain ⟨rfl, here⟩ := mapped isString
    exact here
  rcases either found with isNumber | found
  · rcases number?_kind isNumber with rfl | rfl <;> exact isNumber
  rcases either found with isMark | found
  · obtain ⟨⟨mark, length⟩, isMark, same⟩ := Option.map_eq_some_iff.1 isMark
    cases same
    exact isMark
  rcases either found with isValue | found
  · obtain ⟨rfl, here⟩ := mapped isValue
    exact here
  rcases either found with isLabel | found
  · obtain ⟨rfl, here⟩ := mapped isLabel
    exact here
  rcases either found with isSymbol | found
  · obtain ⟨rfl, here⟩ := mapped isSymbol
    exact here
  rcases either found with isTypeName | found
  · obtain ⟨rfl, here⟩ := mapped isTypeName
    exact here
  rcases either found with isAttributeName | isWord
  · obtain ⟨rfl, here⟩ := mapped isAttributeName
    exact here
  · have wordKind : kind = .keyword ∨ kind = .identifier := by
      unfold word? at isWord
      split at isWord
      · split at isWord
        · cases isWord
          split
          · exact .inl rfl
          · exact .inr rfl
        · cases isWord
      · cases isWord
    rcases wordKind with rfl | rfl <;> exact isWord

/-- A token is not empty, and lies within the text. -/
theorem fits_of_recognize {text : List Char} {kind : TokenKind} {count : Nat}
    (found : recognize text = some (kind, count)) : Fits text count := by
  have shaped := shaped_of_recognize found
  cases kind with
  | string => exact string?_fits shaped
  | integer => exact number?_fits shaped
  | float => exact number?_fits shaped
  | punct mark =>
    obtain ⟨isPrefix, rfl⟩ := punct?_eq_some_iff.1 shaped
    refine ⟨?_, isPrefix.length_le⟩
    cases mark <;> decide
  | value => exact sigil?_fits shaped
  | label => exact sigil?_fits shaped
  | typeName => exact sigil?_fits shaped
  | attributeName => exact sigil?_fits shaped
  | symbol => exact symbol?_fits shaped
  | keyword => exact word?_fits shaped
  | identifier => exact word?_fits shaped
  | endOfInput => exact shaped.elim

/-- Whether a token can start with a character. -/
def starts (c : Char) : Bool :=
  c.isAlphanum || "\"-.(){}[]<>:,=*?%^@!#_".toList.contains c

theorem run?_cons {inClass : Char → Bool} {c : Char} {rest : List Char} {count : Nat}
    (found : run? inClass (c :: rest) = some count) : inClass c = true := by
  cases isIn : inClass c with
  | true => rfl
  | false =>
    rw [run?, runLength, List.takeWhile_cons, isIn] at found
    cases found

theorem starts_of_isDigit {c : Char} (h : c.isDigit = true) : starts c = true := by
  rw [starts, Char.isAlphanum, h, Bool.or_true, Bool.true_or]

theorem starts_of_isWordStart {c : Char} (h : isWordStart c = true) : starts c = true := by
  rw [isWordStart] at h
  rcases Bool.or_eq_true_iff.1 h with letter | underscore
  · rw [starts, Char.isAlphanum, letter, Bool.true_or, Bool.true_or]
  · rw [beq_iff_eq.1 underscore]
    decide

theorem starts_of_number? {c : Char} {rest : List Char} {found : TokenKind × Nat}
    (isNumber : number? (c :: rest) = some found) : starts c = true := by
  have decimal : ∀ {found}, decimal? (c :: rest) = some found → starts c = true := by
    intro found isDecimal
    obtain ⟨digits, isRun, _⟩ := Option.map_eq_some_iff.1 isDecimal
    exact starts_of_isDigit (run?_cons isRun)
  by_cases minus : c = '-'
  · subst minus
    decide
  cases hex : hexadecimal? (c :: rest) with
  | none =>
    rw [number?_positive minus hex] at isNumber
    exact decimal isNumber
  | some number =>
    unfold hexadecimal? at hex
    split at hex
    · rename_i same
      rw [(List.cons.inj same).1]
      decide
    · cases hex

theorem starts_of_sigil? {sigil c : Char} {inClass : Char → Bool} {rest : List Char} {count : Nat}
    (isStart : starts sigil = true) (found : sigil? sigil inClass (c :: rest) = some count) :
    starts c = true := by
  rw [sigil?] at found
  split at found
  · rename_i here
    rwa [here]
  · cases found

theorem starts_of_recognize {c : Char} {rest : List Char} {found : TokenKind × Nat}
    (isToken : recognize (c :: rest) = some found) : starts c = true := by
  obtain ⟨kind, count⟩ := found
  have shaped := shaped_of_recognize isToken
  have word : ∀ {found}, word? (c :: rest) = some found → starts c = true := by
    intro found isWord
    rw [word?] at isWord
    split at isWord
    · exact starts_of_isWordStart ‹_›
    · cases isWord
  cases kind with
  | string =>
    by_cases quote : c = '"'
    · subst quote
      decide
    · rw [Shaped, string?_other quote] at shaped
      cases shaped
  | integer => exact starts_of_number? shaped
  | float => exact starts_of_number? shaped
  | punct mark =>
    obtain ⟨⟨_, same⟩, _⟩ := punct?_eq_some_iff.1 shaped
    cases mark
    all_goals
      rw [← (List.cons.inj same).1]
      decide
  | value => exact starts_of_sigil? (by decide) shaped
  | label => exact starts_of_sigil? (by decide) shaped
  | typeName => exact starts_of_sigil? (by decide) shaped
  | attributeName => exact starts_of_sigil? (by decide) shaped
  | symbol =>
    replace shaped : symbol? (c :: rest) = some count := shaped
    unfold symbol? at shaped
    split at shaped
    · rename_i same
      rw [(List.cons.inj same).1]
      decide
    · cases shaped
  | keyword => exact word shaped
  | identifier => exact word shaped
  | endOfInput => exact shaped.elim

theorem not_isBlank_of_isAlphanum {c : Char} (alphanumeric : c.isAlphanum = true) :
    Text.isBlank c = false := by
  simp only [Char.isAlphanum, Char.isAlpha, Char.isUpper, Char.isLower, Char.isDigit,
    Bool.or_eq_true, Bool.and_eq_true, decide_eq_true_eq, UInt32.le_iff_toNat_le, ge_iff_le]
    at alphanumeric
  rw [Text.isBlank]
  simp only [Bool.or_eq_false_iff, Bool.and_eq_false_iff, decide_eq_false_iff_not,
    beq_eq_false_iff_ne]
  change ((65 ≤ c.toNat ∧ c.toNat ≤ 90) ∨ (97 ≤ c.toNat ∧ c.toNat ≤ 122)) ∨
    (48 ≤ c.toNat ∧ c.toNat ≤ 57) at alphanumeric
  omega

/-- No token starts with a blank. -/
theorem not_isBlank_of_starts {c : Char} (h : starts c = true) : Text.isBlank c = false := by
  rcases Bool.or_eq_true_iff.1 h with alphanumeric | listed
  · exact not_isBlank_of_isAlphanum alphanumeric
  · have none : ∀ d ∈ "\"-.(){}[]<>:,=*?%^@!#_".toList, Text.isBlank d = false := by
      simp [Text.isBlank]
    exact none c (List.contains_iff_mem.1 listed)

/-- A blank goes on no token. -/
theorem not_isBlank_of_joins {c : Char} (h : joins c = true) : Text.isBlank c = false := by
  simp only [joins, isNameChar, isWordChar, Bool.or_eq_true, beq_iff_eq] at h
  rcases h with ((((alphanumeric | rfl) | rfl) | rfl) | rfl) | rfl
  · exact not_isBlank_of_isAlphanum alphanumeric
  all_goals decide

end CirText.Shape
