import CirText.Proofs.Token.Partition

/-!
# Texts that are joined

What the lexer finds in a text that is put together from others. Tokens that are written one behind
the other with any gaps between them stay the tokens that they are, and a text is split line by
line, whatever is wrong on a line.
-/

namespace CirText

namespace Lexer

open Shape

/-! ## Tokens and gaps -/

/-- A comment that is skipped ends at the line feed. -/
theorem skipTrivia_comment {body : List Char} (oneLine : '\n' ∉ body) (offset : Nat)
    (later : List Char) :
    skipTrivia true offset (body ++ '\n' :: later) =
      skipTrivia false (offset + Text.byteSize body + 1) later := by
  induction body generalizing offset with
  | nil => rfl
  | cons c body ih =>
    have noBreak : c ≠ '\n' := by
      rintro rfl
      exact oneLine List.mem_cons_self
    have rest := ih (fun member => oneLine (List.mem_cons_of_mem _ member)) (offset + c.utf8Size)
    rw [List.cons_append, skipTrivia, if_pos rfl, bne_iff_ne.mpr noBreak, rest, Text.byteSize,
      Nat.add_assoc offset]

/-- Gaps are skipped wherever they stand. -/
theorem Gap.trivia {gap : List Char} (isGap : Gap false gap) : Trivia gap := by
  induction isGap with
  | nil => exact fun _ _ => rfl
  | blank isBlank more ih =>
    intro offset later
    rw [List.cons_append, skipTrivia, if_neg Bool.false_ne_true, if_pos isBlank, ih, Text.byteSize,
      Nat.add_assoc]
  | @comment body rest oneLine more ih =>
    intro offset later
    have slashes : skipTrivia false offset ('/' :: '/' :: (body ++ '\n' :: rest) ++ later) =
        skipTrivia true (offset + 2) (body ++ '\n' :: (rest ++ later)) := by
      simp only [List.cons_append, List.append_assoc]
      rfl
    rw [slashes, skipTrivia_comment oneLine, ih]
    congr 1
    have size : Text.byteSize ('/' :: '/' :: (body ++ '\n' :: rest)) =
        1 + (1 + (Text.byteSize body + (1 + Text.byteSize rest))) := by
      rw [Text.byteSize, Text.byteSize, Text.byteSize_append, Text.byteSize]
      rfl
    omega
  | lastComment isFinal oneLine => cases isFinal

/-- No token goes on into a gap. -/
theorem Gap.breaks {gap : List Char} (isGap : Gap false gap) (nonempty : gap ≠ [])
    (later : List Char) : Breaks (gap ++ later) := by
  cases isGap with
  | nil => exact absurd rfl nonempty
  | @blank c rest isBlank more =>
    apply breaks_cons
    cases joining : joins c with
    | false => rfl
    | true => exact absurd (isBlank.symm.trans (not_isBlank_of_joins joining)) (by decide)
  | comment oneLine more => exact breaks_cons rfl
  | lastComment isFinal oneLine => cases isFinal

/-- Texts of tokens with gaps behind them. -/
def spaced (tokens : List Token) (gaps : List (List Char)) : List Char :=
  (List.zipWith (fun token gap => token.text.toList ++ gap) tokens gaps).flatten

theorem contents_spaced {tokens : List Token} {gaps : List (List Char)}
    (lexed : ∀ token ∈ tokens, Lexed token.kind token.text.toList)
    (count : gaps.length = tokens.length) (areGaps : ∀ gap ∈ gaps, Gap false gap)
    (separate : ∀ gap ∈ gaps.dropLast, gap ≠ []) :
    contents (spaced tokens gaps) = contentsOf tokens := by
  induction tokens generalizing gaps with
  | nil => exact contents_nil
  | cons token tokens ih =>
    cases gaps with
    | nil => cases count
    | cons gap gaps =>
      obtain ⟨isToken, others⟩ := List.forall_mem_cons.mp lexed
      obtain ⟨isGap, moreGaps⟩ := List.forall_mem_cons.mp areGaps
      have sameCount : gaps.length = tokens.length := Nat.succ.inj count
      have rest : contents (spaced tokens gaps) = contentsOf tokens := by
        apply ih others sameCount moreGaps
        intro other member
        cases gaps with
        | nil => cases member
        | cons next gaps => exact separate other (List.mem_cons_of_mem _ member)
      have split : spaced (token :: tokens) (gap :: gaps) =
          token.text.toList ++ (gap ++ spaced tokens gaps) := by
        simp [spaced]
      have breaks : Breaks (gap ++ spaced tokens gaps) := by
        by_cases nonempty : gap = []
        · -- Only the last gap may be empty.
          cases gaps with
          | nil => simp [nonempty, spaced, breaks_nil]
          | cons next gaps => exact absurd nonempty (separate gap List.mem_cons_self)
        · exact isGap.breaks nonempty _
      rw [split, isToken.contents_append breaks, contents_trivia isGap.trivia, rest,
        String.ofList_toList]
      rfl

end Lexer

/-- The tokens and errors of a source unit by what the lexer finds, apart from where. -/
theorem Lexer.tokenize_of_contents {source : String} {tokens : List Token}
    (same : contents source.toList = contentsOf tokens) :
    (tokenize source).errors = [] ∧
      (tokenize source).tokens.map (fun token => (token.kind, token.text)) =
        tokens.map (fun token => (token.kind, token.text)) := by
  have all : (lexItems source).map content =
      (tokens.map fun token => (token.kind, token.text)).map some := by
    rw [List.map_map]
    exact same
  unfold tokenize
  dsimp only
  generalize lexItems source = items at all ⊢
  generalize (tokens.map fun token => (token.kind, token.text)) = found at all ⊢
  induction items generalizing found with
  | nil =>
    obtain rfl : found = [] := List.map_eq_nil_iff.mp all.symm
    exact ⟨rfl, rfl⟩
  | cons item items ih =>
    obtain ⟨first, found, rfl⟩ : ∃ first rest, found = first :: rest := by
      apply List.exists_cons_of_ne_nil
      rintro rfl
      cases all
    obtain ⟨here, later⟩ := List.cons.inj all
    cases item with
    | error fault => cases here
    | token token =>
      obtain ⟨clean, more⟩ := ih found later
      exact ⟨clean, congrArg₂ List.cons (Option.some.inj here) more⟩

/-- Tokens do not depend on the blanks and comments between them. -/
theorem tokenize_respaced {source : String} (clean : (tokenize source).errors = [])
    {first : List Char} {gaps : List (List Char)}
    (count : gaps.length = (tokenize source).tokens.length) (leading : Lexer.Gap false first)
    (areGaps : ∀ gap ∈ gaps, Lexer.Gap false gap) (separate : ∀ gap ∈ gaps.dropLast, gap ≠ []) :
    (tokenize (.ofList (first ++ Lexer.spaced (tokenize source).tokens gaps))).errors = [] ∧
      (tokenize (.ofList (first ++ Lexer.spaced (tokenize source).tokens gaps))).tokens.map
          (fun token => (token.kind, token.text)) =
        (tokenize source).tokens.map (fun token => (token.kind, token.text)) := by
  apply Lexer.tokenize_of_contents
  rw [String.toList_ofList, Lexer.contents_trivia leading.trivia]
  exact Lexer.contents_spaced (fun token member => lexed_of_mem clean member) count areGaps separate

/-- A negative number right behind a mark. -/
def closeNumber : String :=
  "%0=-1"

/-- Gaps that move the number away from the mark, with a comment in between. -/
def commentGaps : List (List Char) :=
  [[' '], "// one\n".toList, []]

/-- The number stays the number that it is when it is moved away from the mark. -/
theorem tokenize_respaced_negative :
    (tokenize closeNumber).errors = [] ∧
      (tokenize (.ofList
        (['\n'] ++ Lexer.spaced (tokenize closeNumber).tokens commentGaps))).errors =
        [] ∧
      (tokenize (.ofList (['\n'] ++
          Lexer.spaced (tokenize closeNumber).tokens commentGaps))).tokens.map
          (fun token => (token.kind, token.text)) =
        (tokenize closeNumber).tokens.map (fun token => (token.kind, token.text)) := by
  have clean : (tokenize closeNumber).errors = [] := by
    cbv
  have three : (tokenize closeNumber).tokens.length = 3 := by
    cbv
  have lineFeed : Lexer.Gap false ['\n'] := .blank rfl .nil
  have comment : Lexer.Gap false "// one\n".toList :=
    @Lexer.Gap.comment false " one".toList [] (by decide) .nil
  have areGaps : ∀ gap ∈ commentGaps, Lexer.Gap false gap :=
    List.forall_mem_cons.mpr ⟨.blank rfl .nil, List.forall_mem_cons.mpr
      ⟨comment, List.forall_mem_singleton.mpr .nil⟩⟩
  have separate : ∀ gap ∈ commentGaps.dropLast, gap ≠ [] := by
    decide
  exact ⟨clean, tokenize_respaced clean three.symm lineFeed areGaps separate⟩

/-! ## Lines -/

namespace Lexer

open Shape

section Lines

variable {text : List Char} (noEscape : text.getLast? ≠ some '\\') (later : List Char)

include noEscape

/-- What is recognised on a line does not depend on the lines behind it. -/
theorem recognize_line (nonempty : text ≠ []) :
    recognize (text ++ '\n' :: later) = recognize text := by
  have breaks : Breaks ('\n' :: later) := breaks_cons rfl
  cases joined : recognize (text ++ '\n' :: later) with
  | some found =>
    obtain ⟨kind, count⟩ := found
    obtain ⟨piece, rest, split, size, isToken⟩ := recognize_takes joined
    have inside : count ≤ text.length := by
      by_contra outside
      -- A token that goes on behind the line has the line feed in it.
      have longer : text ++ ['\n'] <+: piece := by
        have start : text ++ ['\n'] <+: text ++ '\n' :: later := ⟨later, by simp⟩
        apply List.prefix_of_prefix_length_le start ⟨rest, split.symm⟩
        rw [List.length_append, List.length_singleton]
        omega
      obtain ⟨after, rfl⟩ := longer
      rw [List.append_assoc, List.singleton_append] at isToken
      exact noEscape (lineFeed_of_matches isToken)
    have alone := recognize_append breaks_nil joined inside nonempty
    rw [List.append_nil] at alone
    exact alone.symm
  | none =>
    cases alone : recognize text with
    | none => rfl
    | some found =>
      rw [← List.append_nil text] at alone
      have inside := (fits_of_recognize alone).2
      rw [List.append_nil] at inside
      rw [recognize_append breaks alone inside nonempty] at joined
      cases joined

end Lines

/-- What is skipped in front of an item on a line does not depend on the lines behind it; where a
line has no more items, skipping goes on with the next one. -/
theorem skipTrivia_line (inComment : Bool) (offset : Nat) (text later : List Char) :
    skipTrivia inComment offset (text ++ '\n' :: later) =
      match skipTrivia inComment offset text with
      | (start, []) => skipTrivia false (start + 1) later
      | (start, c :: rest) => (start, c :: (rest ++ '\n' :: later)) := by
  induction text generalizing inComment offset with
  | nil => cases inComment <;> rfl
  | cons c text ih =>
    have slash : decide ((text ++ '\n' :: later).head? = some '/') =
        decide (text.head? = some '/') := by
      cases text with
      | nil => rfl
      | cons d text => rfl
    rw [List.cons_append, skipTrivia, skipTrivia, slash]
    split
    · exact ih _ _
    · split
      · exact ih _ _
      · split
        · exact ih _ _
        · rfl

theorem takeWhile_line (text later : List Char) :
    (text ++ '\n' :: later).takeWhile (· != '\n') = text.takeWhile (· != '\n') := by
  induction text with
  | nil => rfl
  | cons c text ih => rw [List.cons_append, List.takeWhile_cons, List.takeWhile_cons, ih]

/-- An item of a line does not depend on the lines behind it. -/
theorem item_line {c : Char} {rest : List Char} (noEscape : (c :: rest).getLast? ≠ some '\\')
    (offset : Nat) (later : List Char) :
    item offset c (rest ++ '\n' :: later) = item offset c rest ∧
      (item offset c rest).2 ≤ rest.length := by
  have same := recognize_line noEscape later (List.cons_ne_nil _ _)
  unfold item
  rw [← List.cons_append, same]
  cases found : recognize (c :: rest) with
  | some token =>
    obtain ⟨kind, length⟩ := token
    have inside := (fits_of_recognize found).2
    rw [List.length_cons] at inside
    have bound : length - 1 ≤ rest.length := by omega
    dsimp only
    rw [List.take_append_of_le_length bound]
    exact ⟨rfl, bound⟩
  | none =>
    dsimp only
    split
    · rw [takeWhile_line]
      exact ⟨rfl, (List.takeWhile_prefix _).length_le⟩
    · exact ⟨rfl, Nat.zero_le _⟩

theorem getLast?_drop_ne {text : List Char} {last : Char} (other : text.getLast? ≠ some last)
    (count : Nat) : (text.drop count).getLast? ≠ some last := by
  intro same
  apply other
  rw [List.getLast?_drop] at same
  split at same
  · cases same
  · exact same

/-- A text is split line by line. -/
theorem itemsFrom_line (offset : Nat) (text later : List Char)
    (noEscape : text.getLast? ≠ some '\\') :
    itemsFrom offset (text ++ '\n' :: later) =
      itemsFrom offset text ++ itemsFrom (offset + Text.byteSize text + 1) later := by
  induction offset, text using itemsFrom.induct with
  | case1 offset text start found =>
    obtain ⟨gap, split, moves, _⟩ := skipTrivia_gap found
    rw [List.append_nil] at split
    rw [itemsFrom_eq, itemsFrom_eq _ text, skipTrivia_line, found, itemsFrom_eq _ later,
      split, ← moves]
    rfl
  | case2 offset text start c rest found first length same ih =>
    obtain ⟨gap, split, moves, _⟩ := skipTrivia_gap found
    have noEscape' : (c :: rest).getLast? ≠ some '\\' := by
      rw [split] at noEscape
      rwa [List.getLast?_append_of_ne_nil _ (List.cons_ne_nil c rest)] at noEscape
    obtain ⟨sameItem, inside⟩ := item_line noEscape' start later
    rw [same] at sameItem inside
    have stop : offset + Text.byteSize text + 1 =
        start + Text.byteSize (c :: rest.take length) + Text.byteSize (rest.drop length) + 1 := by
      have size := Text.byteSize_append (c :: rest.take length) (rest.drop length)
      rw [List.cons_append, List.take_append_drop] at size
      rw [split, Text.byteSize_append, moves, size]
      omega
    rw [itemsFrom_eq, itemsFrom_eq _ text, skipTrivia_line, found]
    simp only [sameItem, same, List.cons_append]
    rw [List.take_append_of_le_length inside, List.drop_append_of_le_length inside, ih, stop]
    exact getLast?_drop_ne (getLast?_drop_ne noEscape' 1) length

end Lexer

/-- What the lexer finds on a line, tokens and errors, does not depend on the lines around it. -/
theorem lexItems_line {first : String} (noEscape : first.toList.getLast? ≠ some '\\')
    (second : String) :
    lexItems (first ++ "\n" ++ second) =
      lexItems first ++ (lexItems second).map (.shift (first.utf8ByteSize + 1)) := by
  have joined : (first ++ "\n" ++ second).toList = first.toList ++ '\n' :: second.toList := by
    simp
  unfold lexItems
  rw [joined, Lexer.itemsFrom_line 0 _ _ noEscape, ← Lexer.itemsFrom_add, Text.byteSize_toList,
    Nat.add_assoc]

/-- A string literal that is left open spoils its own line only. -/
theorem lexItems_line_unterminated :
    "cir.f @\"open".toList.getLast? ≠ some '\\' ∧
      lexItems ("cir.f @\"open" ++ "\n" ++ "%x \"") =
        lexItems "cir.f @\"open" ++
          (lexItems "%x \"").map (.shift ("cir.f @\"open".utf8ByteSize + 1)) :=
  have noEscape : "cir.f @\"open".toList.getLast? ≠ some '\\' := by decide
  ⟨noEscape, lexItems_line noEscape "%x \""⟩

end CirText
