import CirText.Proofs.Token.Shape

/-!
# The lexical grammar

`TokenKind.Matches` says which texts are tokens of which class, without saying how they are found.
The recognisers find just these: what is recognised at the start of a text matches its class, and
where a text starts with anything that matches a class, something at least as long is recognised.
-/

namespace CirText

namespace Shape

/-! ## Parts of tokens -/

/-- Whether a text is not empty and has characters of one class only. -/
def Run (inClass : Char → Bool) (text : List Char) : Prop :=
  text ≠ [] ∧ ∀ c ∈ text, inClass c = true

/-- What may stand between the quotes of a string literal: characters other than the quote, the
backslash and the line feed, and backslashes each of which takes any character along. -/
inductive StringBody : List Char → Prop where
  | nil : StringBody []
  | plain {c : Char} {rest : List Char} (noQuote : c ≠ '"') (noEscape : c ≠ '\\')
      (noBreak : c ≠ '\n') (more : StringBody rest) : StringBody (c :: rest)
  | escape {c : Char} {rest : List Char} (more : StringBody rest) : StringBody ('\\' :: c :: rest)

/-- A string literal with its quotes. -/
def StringLiteral (text : List Char) : Prop :=
  ∃ body, text = '"' :: (body ++ ['"']) ∧ StringBody body

/-- The exponent of a decimal number, which may be missing. -/
inductive Exponent : List Char → Prop where
  | missing : Exponent []
  | given {mark : Char} {sign digits : List Char} (isMark : mark = 'e' ∨ mark = 'E')
      (isSign : sign = [] ∨ sign = ['+'] ∨ sign = ['-']) (isRun : Run Char.isDigit digits) :
      Exponent (mark :: (sign ++ digits))

/-- The minus sign of a number, which may be missing. -/
def Minus (text : List Char) : Prop :=
  text = [] ∨ text = ['-']

end Shape

open Shape

/-- Whether a text is a token of a class. -/
inductive TokenKind.Matches : TokenKind → List Char → Prop where
  | keyword {c : Char} {rest : List Char} (start : isWordStart c = true)
      (all : ∀ d ∈ rest, isWordChar d = true) (dotted : '.' ∈ rest) : Matches .keyword (c :: rest)
  | identifier {c : Char} {rest : List Char} (start : isWordStart c = true)
      (all : ∀ d ∈ rest, isWordChar d = true) (plain : '.' ∉ rest) : Matches .identifier (c :: rest)
  | value {name : List Char} (isName : Run isNameChar name) : Matches .value ('%' :: name)
  | label {name : List Char} (isName : Run isNameChar name) : Matches .label ('^' :: name)
  | symbol {name : List Char} (isName : Run isNameChar name) : Matches .symbol ('@' :: name)
  | quotedSymbol {literal : List Char} (isLiteral : StringLiteral literal) :
      Matches .symbol ('@' :: literal)
  | typeName {name : List Char} (isName : Run isWordChar name) : Matches .typeName ('!' :: name)
  | attributeName {name : List Char} (isName : Run isWordChar name) :
      Matches .attributeName ('#' :: name)
  | integer {minus digits : List Char} (isMinus : Minus minus) (isRun : Run Char.isDigit digits) :
      Matches .integer (minus ++ digits)
  | hexadecimal {digits : List Char} (isRun : Run isHexDigit digits) :
      Matches .integer ('0' :: 'x' :: digits)
  | float {minus digits places exponent : List Char} (isMinus : Minus minus)
      (isRun : Run Char.isDigit digits) (arePlaces : Run Char.isDigit places)
      (isExponent : Exponent exponent) :
      Matches .float (minus ++ (digits ++ '.' :: (places ++ exponent)))
  | string {literal : List Char} (isLiteral : StringLiteral literal) : Matches .string literal
  | punct (mark : Punct) : Matches (.punct mark) mark.text.toList

namespace Shape

/-! ## What is recognised matches -/

/-- Whether the first characters of a text, as many as counted, form a text of a language. -/
def Takes (language : List Char → Prop) (text : List Char) (count : Nat) : Prop :=
  ∃ piece rest, text = piece ++ rest ∧ count = piece.length ∧ language piece

theorem Takes.cons {language others : List Char → Prop} {c : Char} {text : List Char} {count : Nat}
    (takes : Takes language text count) (step : ∀ {piece}, language piece → others (c :: piece)) :
    Takes others (c :: text) (count + 1) := by
  rcases takes with ⟨piece, rest, rfl, rfl, inLanguage⟩
  exact ⟨c :: piece, rest, rfl, rfl, step inLanguage⟩

theorem Takes.mono {language others : List Char → Prop} {text : List Char} {count : Nat}
    (takes : Takes language text count) (step : ∀ {piece}, language piece → others piece) :
    Takes others text count := by
  rcases takes with ⟨piece, rest, split, size, inLanguage⟩
  exact ⟨piece, rest, split, size, step inLanguage⟩

theorem run?_takes {inClass : Char → Bool} {text : List Char} {count : Nat}
    (found : run? inClass text = some count) : Takes (Run inClass) text count := by
  have positive := run?_pos found
  unfold run? at found
  dsimp only at found
  split at found
  · cases found
  · cases found
    refine ⟨text.takeWhile inClass, text.dropWhile inClass,
      List.takeWhile_append_dropWhile.symm, rfl, ?_, fun c member => ?_⟩
    · exact List.ne_nil_of_length_pos positive
    · exact List.mem_takeWhile_imp member

theorem closingQuote?_takes : ∀ {text : List Char} {count : Nat},
    closingQuote? text = some count →
      Takes (fun piece => ∃ body, piece = body ++ ['"'] ∧ StringBody body) text count
  | [], _, found => nomatch found
  | c :: text, count, found => by
    by_cases escape : c = '\\'
    · subst escape
      cases text with
      | nil => cases found
      | cons d text =>
        rcases Option.map_eq_some_iff.mp found with ⟨more, foundMore, rfl⟩
        rcases closingQuote?_takes foundMore with ⟨_, rest, rfl, rfl, body, rfl, isBody⟩
        exact ⟨'\\' :: d :: (body ++ ['"']), rest, rfl, rfl, '\\' :: d :: body, rfl, .escape isBody⟩
    · rw [closingQuote?_other escape] at found
      split at found
      · rename_i quote
        cases found
        subst quote
        exact ⟨['"'], text, rfl, rfl, [], rfl, .nil⟩
      · rename_i noQuote
        split at found
        · cases found
        · rename_i noBreak
          rcases Option.map_eq_some_iff.mp found with ⟨more, foundMore, rfl⟩
          rcases closingQuote?_takes foundMore with ⟨_, rest, rfl, rfl, body, rfl, isBody⟩
          exact ⟨c :: (body ++ ['"']), rest, rfl, rfl, c :: body, rfl,
            .plain noQuote escape noBreak isBody⟩

theorem string?_takes {text : List Char} {count : Nat} (found : string? text = some count) :
    Takes StringLiteral text count := by
  unfold string? at found
  split at found
  · rcases Option.map_eq_some_iff.mp found with ⟨more, foundMore, rfl⟩
    apply (closingQuote?_takes foundMore).cons
    rintro _ ⟨body, rfl, isBody⟩
    exact ⟨body, rfl, isBody⟩
  · cases found

theorem signLength_takes (text : List Char) :
    Takes (fun sign => sign = [] ∨ sign = ['+'] ∨ sign = ['-']) text (signLength text) := by
  cases text with
  | nil => exact ⟨[], [], rfl, rfl, .inl rfl⟩
  | cons sign text =>
    by_cases isSign : sign = '+' ∨ sign = '-'
    · have size : signLength (sign :: text) = 1 := by simp [signLength, isSign]
      refine ⟨[sign], text, rfl, size, .inr ?_⟩
      rcases isSign with rfl | rfl
      · exact .inl rfl
      · exact .inr rfl
    · have size : signLength (sign :: text) = 0 := by simp [signLength, isSign]
      exact ⟨[], sign :: text, rfl, size, .inl rfl⟩

theorem exponentLength_takes (text : List Char) : Takes Exponent text (exponentLength text) := by
  have missing : ∀ {text}, exponentLength text = 0 → Takes Exponent text (exponentLength text) := by
    intro text none
    rw [none]
    exact ⟨[], text, rfl, rfl, .missing⟩
  cases text with
  | nil => exact missing rfl
  | cons mark text =>
    have unfolded := exponentLength_cons mark text
    by_cases isMark : mark = 'e' ∨ mark = 'E'
    · rw [if_pos (by simpa using isMark)] at unfolded
      cases found : run? Char.isDigit (text.drop (signLength text)) with
      | none =>
        rw [found] at unfolded
        exact missing unfolded
      | some count =>
        rw [found] at unfolded
        rcases signLength_takes text with ⟨sign, rest, split, size, isSign⟩
        rw [size, split, List.drop_left] at found
        rcases run?_takes found with ⟨digits, rest, rfl, rfl, isRun⟩
        refine ⟨mark :: (sign ++ digits), rest, by simp [split], ?_, .given isMark isSign isRun⟩
        rw [unfolded, size]
        simp only [Option.map_some, Option.getD_some, List.length_cons, List.length_append]
        omega
    · rw [if_neg (by simpa using isMark)] at unfolded
      exact missing unfolded

theorem fraction?_takes {text : List Char} {count : Nat} (found : fraction? text = some count) :
    Takes (fun piece => ∃ places exponent, piece = '.' :: (places ++ exponent) ∧
      Run Char.isDigit places ∧ Exponent exponent) text count := by
  unfold fraction? at found
  split at found
  · rename_i rest
    rcases Option.map_eq_some_iff.mp found with ⟨digits, isRun, rfl⟩
    rcases run?_takes isRun with ⟨places, rest, rfl, rfl, arePlaces⟩
    rw [List.drop_left]
    rcases exponentLength_takes rest with ⟨exponent, rest, rfl, size, isExponent⟩
    refine ⟨'.' :: (places ++ exponent), rest, by simp, ?_, places, exponent, rfl, arePlaces,
      isExponent⟩
    rw [size]
    simp only [List.length_cons, List.length_append]
    omega
  · cases found

theorem decimal?_takes {text minus : List Char} {kind : TokenKind} {count : Nat}
    (isMinus : Minus minus) (found : decimal? text = some (kind, count)) :
    Takes (fun piece => kind.Matches (minus ++ piece)) text count := by
  rcases Option.map_eq_some_iff.mp found with ⟨digits, isRun, same⟩
  rcases run?_takes isRun with ⟨digits, rest, rfl, rfl, areDigits⟩
  rw [List.drop_left] at same
  split at same
  · rename_i more isFraction
    cases same
    rcases fraction?_takes isFraction with ⟨_, rest, rfl, rfl, places, exponent, rfl, arePlaces,
      isExponent⟩
    exact ⟨digits ++ '.' :: (places ++ exponent), rest, by simp, by simp,
      .float isMinus areDigits arePlaces isExponent⟩
  · cases same
    exact ⟨digits, rest, rfl, rfl, .integer isMinus areDigits⟩

theorem number?_takes {text : List Char} {kind : TokenKind} {count : Nat}
    (found : number? text = some (kind, count)) : Takes kind.Matches text count := by
  cases hex : hexadecimal? text with
  | some number =>
    obtain rfl := Option.some.inj ((number?_of_hexadecimal? hex).symm.trans found)
    unfold hexadecimal? at hex
    split at hex
    · rcases Option.map_eq_some_iff.mp hex with ⟨digits, isRun, same⟩
      cases same
      rcases run?_takes isRun with ⟨digits, rest, rfl, rfl, areDigits⟩
      exact ⟨'0' :: 'x' :: digits, rest, rfl, rfl, .hexadecimal areDigits⟩
    · cases hex
  | none =>
    cases text with
    | nil => cases found
    | cons c text =>
      by_cases minus : c = '-'
      · subst minus
        rw [number?_negative hex] at found
        rcases Option.map_eq_some_iff.mp found with ⟨⟨kind, count⟩, isDecimal, same⟩
        cases same
        exact (decimal?_takes (.inr rfl) isDecimal).cons id
      · rw [number?_positive minus hex] at found
        exact (decimal?_takes (.inl rfl) found).mono id

theorem sigil?_takes {sigil : Char} {inClass : Char → Bool} {text : List Char} {count : Nat}
    (found : sigil? sigil inClass text = some count) :
    Takes (fun piece => ∃ name, piece = sigil :: name ∧ Run inClass name) text count := by
  unfold sigil? at found
  split at found
  · split at found
    · rename_i here
      subst here
      rcases Option.map_eq_some_iff.mp found with ⟨more, isRun, rfl⟩
      exact (run?_takes isRun).cons fun isName => ⟨_, rfl, isName⟩
    · cases found
  · cases found

theorem symbol?_takes {text : List Char} {count : Nat} (found : symbol? text = some count) :
    Takes (TokenKind.Matches .symbol) text count := by
  unfold symbol? at found
  split at found
  · rename_i rest
    rcases Option.map_eq_some_iff.mp found with ⟨more, isName, rfl⟩
    cases quoted : string? rest with
    | some size =>
      rw [quoted] at isName
      obtain rfl : size = more := Option.some.inj isName
      exact (string?_takes quoted).cons .quotedSymbol
    | none =>
      rw [quoted] at isName
      replace isName : run? isNameChar rest = some more := isName
      exact (run?_takes isName).cons .symbol
  · cases found

theorem word?_takes {text : List Char} {kind : TokenKind} {count : Nat}
    (found : word? text = some (kind, count)) : Takes kind.Matches text count := by
  unfold word? at found
  split at found
  · rename_i c rest
    split at found
    · rename_i start
      cases found
      have all : ∀ d ∈ rest.takeWhile isWordChar, isWordChar d = true :=
        fun d member => List.mem_takeWhile_imp member
      refine ⟨c :: rest.takeWhile isWordChar, rest.dropWhile isWordChar, ?_, rfl, ?_⟩
      · rw [List.cons_append, List.takeWhile_append_dropWhile]
      · by_cases dotted : '.' ∈ rest.takeWhile isWordChar
        · rw [if_pos (List.contains_iff_mem.mpr dotted)]
          exact .keyword start all dotted
        · rw [if_neg (mt List.contains_iff_mem.mp dotted)]
          exact .identifier start all dotted
    · cases found
  · cases found

/-- What is recognised at the start of a text is a token of the class that is given. -/
theorem recognize_takes {text : List Char} {kind : TokenKind} {count : Nat}
    (found : recognize text = some (kind, count)) : Takes kind.Matches text count := by
  have shaped := shaped_of_recognize found
  cases kind with
  | keyword => exact word?_takes shaped
  | identifier => exact word?_takes shaped
  | value => exact (sigil?_takes shaped).mono (by rintro _ ⟨name, rfl, isName⟩; exact .value isName)
  | label => exact (sigil?_takes shaped).mono (by rintro _ ⟨name, rfl, isName⟩; exact .label isName)
  | «symbol» => exact symbol?_takes shaped
  | typeName =>
    exact (sigil?_takes shaped).mono (by rintro _ ⟨name, rfl, isName⟩; exact .typeName isName)
  | attributeName =>
    exact (sigil?_takes shaped).mono (by rintro _ ⟨name, rfl, isName⟩; exact .attributeName isName)
  | integer => exact number?_takes shaped
  | float => exact number?_takes shaped
  | string => exact (string?_takes shaped).mono .string
  | punct mark =>
    obtain ⟨⟨rest, rfl⟩, rfl⟩ := punct?_eq_some_iff.mp shaped
    exact ⟨mark.text.toList, rest, rfl, rfl, .punct mark⟩
  | endOfInput => exact shaped.elim

/-! ## What matches is recognised -/

section Found

variable {inClass : Char → Bool} {piece : List Char} (rest : List Char)

theorem runLength_append (all : ∀ c ∈ piece, inClass c = true) :
    runLength inClass (piece ++ rest) = piece.length + runLength inClass rest := by
  rw [runLength, List.takeWhile_append_of_pos all, List.length_append]
  rfl

theorem Run.found (isRun : Run inClass piece) :
    run? inClass (piece ++ rest) = some (piece.length + runLength inClass rest) := by
  have positive := List.length_pos_of_ne_nil isRun.1
  have some : ¬piece.length + runLength inClass rest = 0 := by omega
  simp only [run?, runLength_append rest isRun.2, if_neg some]

theorem runLength_cons_of_not {c : Char} (outside : inClass c = false) :
    runLength inClass (c :: rest) = 0 := by
  simp [runLength, outside]

theorem Run.exists_cons (isRun : Run inClass piece) :
    ∃ c more, piece = c :: more ∧ inClass c = true := by
  obtain ⟨c, more, rfl⟩ := List.exists_cons_of_ne_nil isRun.1
  exact ⟨c, more, rfl, isRun.2 c List.mem_cons_self⟩

theorem StringBody.found {body : List Char} (isBody : StringBody body) :
    closingQuote? (body ++ '"' :: rest) = some (body.length + 1) := by
  induction isBody with
  | nil => rfl
  | plain noQuote noEscape noBreak more ih =>
    rw [List.cons_append, closingQuote?_other noEscape, if_neg noQuote, if_neg noBreak, ih]
    rfl
  | escape more ih =>
    rw [List.cons_append, List.cons_append, closingQuote?_escape, ih]
    rfl

theorem StringLiteral.found {literal : List Char} (isLiteral : StringLiteral literal) :
    string? (literal ++ rest) = some literal.length := by
  rcases isLiteral with ⟨body, rfl, isBody⟩
  rw [List.cons_append, List.append_assoc, List.singleton_append, string?, isBody.found]
  simp

theorem signLength_append {sign digits : List Char} (isRun : Run Char.isDigit digits)
    (isSign : sign = [] ∨ sign = ['+'] ∨ sign = ['-']) :
    signLength (sign ++ (digits ++ rest)) = sign.length := by
  rcases isSign with rfl | rfl | rfl
  · rcases isRun.exists_cons with ⟨d, more, rfl, isDigit⟩
    have plus : d ≠ '+' := by
      rintro rfl
      exact absurd isDigit (by decide)
    have minus : d ≠ '-' := by
      rintro rfl
      exact absurd isDigit (by decide)
    simp [signLength, plus, minus]
  · rfl
  · rfl

theorem Exponent.found {exponent : List Char} (isExponent : Exponent exponent) :
    exponent.length ≤ exponentLength (exponent ++ rest) := by
  cases isExponent with
  | missing => exact Nat.zero_le _
  | @given mark sign digits isMark isSign isRun =>
    have size := signLength_append rest isRun isSign
    rw [List.cons_append, List.append_assoc, exponentLength_cons,
      if_pos (by simpa using isMark), size,
      List.drop_left, isRun.found]
    simp only [Option.map_some, Option.getD_some, List.length_cons, List.length_append]
    omega

theorem fraction?_found {places exponent : List Char} (arePlaces : Run Char.isDigit places)
    (isExponent : Exponent exponent) :
    ∃ count, fraction? ('.' :: (places ++ exponent) ++ rest) = some count ∧
      (places ++ exponent).length < count := by
  rw [List.cons_append, List.append_assoc, fraction?_point, arePlaces.found]
  refine ⟨_, rfl, ?_⟩
  have bound := isExponent.found rest
  cases isExponent with
  | missing =>
    dsimp only
    rw [List.append_nil]
    omega
  | @given mark _ _ isMark _ _ =>
    have noDigit : mark.isDigit = false := by
      rcases isMark with rfl | rfl
      · rfl
      · rfl
    dsimp only
    rw [List.cons_append] at bound ⊢
    rw [runLength_cons_of_not _ noDigit, Nat.add_zero, List.drop_left, List.length_append]
    omega

/-- Whether something was found that is at least as long as a piece of text. -/
def Reaches (piece : List Char) (found : Option (TokenKind × Nat)) : Prop :=
  ∃ token, found = some token ∧ piece.length ≤ token.2

theorem decimal?_found {digits : List Char} (isRun : Run Char.isDigit digits) :
    Reaches digits (decimal? (digits ++ rest)) := by
  rw [decimal?, isRun.found, Option.map_some]
  refine ⟨_, rfl, ?_⟩
  split <;> dsimp only <;> omega

theorem decimal?_found_float {digits places exponent : List Char} (isRun : Run Char.isDigit digits)
    (arePlaces : Run Char.isDigit places) (isExponent : Exponent exponent) :
    Reaches (digits ++ '.' :: (places ++ exponent))
      (decimal? (digits ++ '.' :: (places ++ exponent) ++ rest)) := by
  obtain ⟨count, isFraction, bound⟩ := fraction?_found rest arePlaces isExponent
  rw [List.append_assoc, decimal?, isRun.found, Option.map_some]
  refine ⟨_, rfl, ?_⟩
  have noDigit : runLength Char.isDigit ('.' :: (places ++ exponent) ++ rest) = 0 :=
    runLength_cons_of_not _ rfl
  rw [noDigit, Nat.add_zero, List.drop_left, isFraction, List.length_append, List.length_cons]
  dsimp only
  omega

/-- A sign and a decimal number behind it are found, if the number is. The second character tells it
apart from a hexadecimal number. -/
theorem number?_found {minus digits : List Char} {c : Char} (isMinus : Minus minus)
    (isDigit : c.isDigit = true) (noHex : digits.head? ≠ some 'x')
    (isDecimal : Reaches (c :: digits) (decimal? (c :: digits ++ rest))) :
    Reaches (minus ++ c :: digits) (number? (minus ++ c :: digits ++ rest)) := by
  obtain ⟨⟨kind, count⟩, isDecimal, bound⟩ := isDecimal
  rcases isMinus with rfl | rfl
  · rw [List.nil_append]
    cases hex : hexadecimal? (c :: digits ++ rest) with
    | none =>
      have positive : c ≠ '-' := by
        rintro rfl
        exact absurd isDigit (by decide)
      refine ⟨_, ?_, bound⟩
      rw [List.cons_append] at hex isDecimal ⊢
      rw [number?_positive positive hex, isDecimal]
    | some found =>
      -- The number ends before the letter.
      refine ⟨found, number?_of_hexadecimal? hex, ?_⟩
      cases digits with
      | nil => exact (number?_fits (number?_of_hexadecimal? hex)).1
      | cons x digits =>
        unfold hexadecimal? at hex
        split at hex
        · rename_i same
          obtain ⟨_, same⟩ := List.cons.inj same
          exact absurd (congrArg some (List.cons.inj same).1) noHex
        · cases hex
  · have noHexadecimal : hexadecimal? ('-' :: (c :: digits ++ rest)) = none := rfl
    refine ⟨(kind, count + 1), ?_, Nat.succ_le_succ bound⟩
    rw [List.append_assoc, List.singleton_append, number?_negative noHexadecimal, isDecimal]
    rfl

theorem number?_found_hexadecimal {digits : List Char} (isRun : Run isHexDigit digits) :
    Reaches ('0' :: 'x' :: digits) (number? ('0' :: 'x' :: digits ++ rest)) := by
  have hex : hexadecimal? ('0' :: 'x' :: digits ++ rest) =
      some (.integer, digits.length + runLength isHexDigit rest + 2) := by
    rw [List.cons_append, List.cons_append, hexadecimal?, isRun.found]
    rfl
  refine ⟨_, number?_of_hexadecimal? hex, ?_⟩
  simp only [List.length_cons]
  omega

theorem sigil?_found (sigil : Char) {inClass : Char → Bool} {name : List Char}
    (isName : Run inClass name) :
    ∃ count, sigil? sigil inClass (sigil :: name ++ rest) = some count ∧
      (sigil :: name).length ≤ count := by
  rw [List.cons_append, sigil?, if_pos rfl, isName.found]
  refine ⟨_, rfl, ?_⟩
  dsimp only
  rw [List.length_cons]
  omega

theorem symbol?_found {name : List Char} (isName : Run isNameChar name) :
    ∃ count, symbol? ('@' :: name ++ rest) = some count ∧ ('@' :: name).length ≤ count := by
  have run := isName.found rest
  rcases isName.exists_cons with ⟨c, more, rfl, isNameChar⟩
  have noQuote : c ≠ '"' := by
    rintro rfl
    exact absurd isNameChar (by decide)
  rw [List.cons_append] at run
  rw [List.cons_append, List.cons_append, symbol?, string?_other noQuote, run]
  refine ⟨_, rfl, ?_⟩
  dsimp only
  rw [List.length_cons]
  omega

theorem symbol?_found_quoted {literal : List Char} (isLiteral : StringLiteral literal) :
    symbol? ('@' :: literal ++ rest) = some ('@' :: literal).length := by
  rw [List.cons_append, symbol?, isLiteral.found]
  rfl

/-! ## Tokens by their first character -/

theorem recognize_of_number? {text : List Char} {found : TokenKind × Nat}
    (isNumber : number? text = some found) : recognize text = some found := by
  have noString : string? text = none := by
    cases text with
    | nil => rfl
    | cons c text =>
      apply string?_other
      rintro rfl
      cases isNumber
  unfold recognize
  rw [noString, isNumber]
  rfl

theorem recognize_sigil (text : List Char) :
    recognize ('%' :: text) = (sigil? '%' isNameChar ('%' :: text)).map (.value, ·) ∧
      recognize ('^' :: text) = (sigil? '^' isNameChar ('^' :: text)).map (.label, ·) ∧
      recognize ('!' :: text) = (sigil? '!' isWordChar ('!' :: text)).map (.typeName, ·) ∧
      recognize ('#' :: text) = (sigil? '#' isWordChar ('#' :: text)).map (.attributeName, ·) := by
  unfold recognize
  refine ⟨?_, ?_, ?_, ?_⟩
  · cases sigil? '%' isNameChar ('%' :: text) <;> rfl
  · cases sigil? '^' isNameChar ('^' :: text) <;> rfl
  · cases sigil? '!' isWordChar ('!' :: text) <;> rfl
  · cases sigil? '#' isWordChar ('#' :: text) <;> rfl

theorem recognize_punct (mark : Punct) :
    recognize (mark.text.toList ++ rest) = some (.punct mark, mark.text.toList.length) := by
  cases mark <;> rfl

theorem not_isDigit_of_isWordStart {c : Char} (start : isWordStart c = true) :
    c.isDigit = false := by
  cases isDigit : c.isDigit with
  | false => rfl
  | true =>
    simp only [isWordStart, Char.isAlpha, Char.isUpper, Char.isLower, Char.isDigit, Bool.or_eq_true,
      Bool.and_eq_true, decide_eq_true_eq, UInt32.le_iff_toNat_le, ge_iff_le, beq_iff_eq]
      at start isDigit
    rcases start with letter | rfl
    · change (65 ≤ c.toNat ∧ c.toNat ≤ 90) ∨ (97 ≤ c.toNat ∧ c.toNat ≤ 122) at letter
      change 48 ≤ c.toNat ∧ c.toNat ≤ 57 at isDigit
      omega
    · exact absurd isDigit (by decide)

/-- No other token starts as a word does. -/
theorem recognize_of_isWordStart {c : Char} (start : isWordStart c = true) :
    recognize (c :: rest) = word? (c :: rest) := by
  have other : ∀ {d : Char}, isWordStart d = false → c ≠ d := by
    rintro d outside rfl
    exact absurd (start.symm.trans outside) (by decide)
  have noNumber : number? (c :: rest) = none := by
    have noHex : hexadecimal? (c :: rest) = none := by
      unfold hexadecimal?
      split
      · rename_i same
        exact absurd (List.cons.inj same).1 (other rfl)
      · rfl
    rw [number?_positive (other rfl) noHex, decimal?, run?,
      runLength_cons_of_not _ (not_isDigit_of_isWordStart start)]
    rfl
  have noMark : punct? (c :: rest) = none := by
    cases found : punct? (c :: rest) with
    | none => rfl
    | some token =>
      obtain ⟨mark, count⟩ := token
      obtain ⟨⟨others, same⟩, _⟩ := punct?_eq_some_iff.mp found
      cases mark
      all_goals exact absurd (List.cons.inj same).1.symm (other rfl)
  have noSymbol : symbol? (c :: rest) = none := by
    unfold symbol?
    split
    · rename_i same
      exact absurd (List.cons.inj same).1 (other rfl)
    · rfl
  have noSigil : ∀ {sigil inClass}, isWordStart sigil = false →
      sigil? sigil inClass (c :: rest) = none := by
    intro sigil inClass outside
    rw [sigil?, if_neg (other outside)]
  unfold recognize
  rw [string?_other (other rfl), noNumber, noMark, noSymbol, noSigil rfl, noSigil rfl, noSigil rfl,
    noSigil rfl]
  rfl

theorem word?_found {c : Char} {word : List Char} (start : isWordStart c = true)
    (all : ∀ d ∈ word, isWordChar d = true) :
    Reaches (c :: word) (recognize (c :: word ++ rest)) := by
  rw [List.cons_append, recognize_of_isWordStart _ start, word?, if_pos start]
  refine ⟨_, rfl, ?_⟩
  dsimp only
  rw [List.takeWhile_append_of_pos all, List.length_append, List.length_cons]
  omega

/-- Where a text starts with a token, one that is at least as long is recognised. -/
theorem recognize_of_matches {kind : TokenKind} {piece : List Char}
    (isToken : kind.Matches piece) : Reaches piece (recognize (piece ++ rest)) := by
  have counted : ∀ {piece : List Char} {class_ : TokenKind} {lengths : Option Nat},
      (∃ count, lengths = some count ∧ piece.length ≤ count) →
        Reaches piece (lengths.map (class_, ·)) := by
    rintro piece class_ _ ⟨count, rfl, bound⟩
    exact ⟨(class_, count), rfl, bound⟩
  have number : ∀ {piece : List Char}, Reaches piece (number? (piece ++ rest)) →
      Reaches piece (recognize (piece ++ rest)) := by
    rintro piece ⟨found, isNumber, bound⟩
    exact ⟨found, recognize_of_number? isNumber, bound⟩
  cases isToken with
  | keyword start all dotted => exact word?_found rest start all
  | identifier start all plain => exact word?_found rest start all
  | value isName =>
    rw [List.cons_append, (recognize_sigil _).1]
    exact counted (sigil?_found rest '%' isName)
  | label isName =>
    rw [List.cons_append, (recognize_sigil _).2.1]
    exact counted (sigil?_found rest '^' isName)
  | «symbol» isName =>
    rw [List.cons_append, recognize_at]
    exact counted (symbol?_found rest isName)
  | quotedSymbol isLiteral =>
    rw [List.cons_append, recognize_at]
    exact counted ⟨_, symbol?_found_quoted rest isLiteral, Nat.le_refl _⟩
  | typeName isName =>
    rw [List.cons_append, (recognize_sigil _).2.2.1]
    exact counted (sigil?_found rest '!' isName)
  | attributeName isName =>
    rw [List.cons_append, (recognize_sigil _).2.2.2]
    exact counted (sigil?_found rest '#' isName)
  | integer isMinus isRun =>
    have isDecimal := decimal?_found rest isRun
    rcases isRun.exists_cons with ⟨c, more, rfl, isDigit⟩
    apply number
    apply number?_found rest isMinus isDigit _ isDecimal
    intro isLetter
    have inRun := isRun.2 'x' (List.mem_cons_of_mem _ (List.mem_of_head? isLetter))
    exact absurd inRun (by decide)
  | hexadecimal isRun => exact number (number?_found_hexadecimal rest isRun)
  | float isMinus isRun arePlaces isExponent =>
    have isDecimal := decimal?_found_float rest isRun arePlaces isExponent
    rcases isRun.exists_cons with ⟨c, more, rfl, isDigit⟩
    rw [List.cons_append] at isDecimal ⊢
    apply number
    apply number?_found rest isMinus isDigit _ isDecimal
    intro isLetter
    cases more with
    | nil => cases isLetter
    | cons d more =>
      have inRun := isRun.2 'x' (List.mem_cons_of_mem _ (List.mem_of_head? isLetter))
      exact absurd inRun (by decide)
  | string isLiteral =>
    have found := isLiteral.found rest
    rcases isLiteral with ⟨body, rfl, isBody⟩
    rw [List.cons_append] at found ⊢
    rw [recognize_quote]
    exact counted ⟨_, found, Nat.le_refl _⟩
  | punct mark => exact ⟨_, recognize_punct rest mark, Nat.le_refl _⟩

end Found

/-- Where nothing is recognised, no token of any class starts. -/
theorem not_matches_of_recognize {text piece : List Char} {kind : TokenKind}
    (nothing : recognize text = none) (start : piece <+: text) : ¬kind.Matches piece := by
  rintro isToken
  obtain ⟨rest, rfl⟩ := start
  obtain ⟨found, isFound, _⟩ := recognize_of_matches rest isToken
  rw [nothing] at isFound
  cases isFound

/-- No longer piece of the text than what is recognised is a token. -/
theorem length_le_of_matches {text piece : List Char} {kind other : TokenKind} {count : Nat}
    (found : recognize text = some (kind, count)) (start : piece <+: text)
    (isToken : other.Matches piece) : piece.length ≤ count := by
  obtain ⟨rest, rfl⟩ := start
  obtain ⟨longest, isFound, bound⟩ := recognize_of_matches rest isToken
  rw [found] at isFound
  cases isFound
  exact bound

/-! ## Line feeds -/

/-- In a string literal a line feed stands behind a backslash. -/
theorem StringBody.lineFeed {before after : List Char}
    (isBody : StringBody (before ++ '\n' :: after)) :
    before.getLast? = some '\\' := by
  generalize same : before ++ '\n' :: after = body at isBody
  induction isBody generalizing before with
  | nil => cases before <;> cases same
  | plain noQuote noEscape noBreak more ih =>
    cases before with
    | nil => exact absurd (List.cons.inj same).1.symm noBreak
    | cons c before =>
      have last := ih (List.cons.inj same).2
      rw [List.getLast?_cons, last]
      rfl
  | @escape d rest more ih =>
    rcases before with _ | ⟨c, _ | ⟨e, before⟩⟩
    · cases same
    · rw [(List.cons.inj same).1]
      rfl
    · have last := ih (List.cons.inj (List.cons.inj same).2).2
      rw [List.getLast?_cons_cons, List.getLast?_cons, last]
      rfl

theorem StringLiteral.lineFeed {before after : List Char}
    (isLiteral : StringLiteral (before ++ '\n' :: after)) : before.getLast? = some '\\' := by
  obtain ⟨body, same, isBody⟩ := isLiteral
  cases before with
  | nil => cases same
  | cons c before =>
    have inner : before ++ '\n' :: after = body ++ ['"'] := (List.cons.inj same).2
    rcases List.eq_nil_or_concat' after with rfl | ⟨after, d, rfl⟩
    · cases (List.append_inj' inner rfl).2
    · rw [← List.cons_append, ← List.append_assoc] at inner
      obtain ⟨rfl, _⟩ := List.append_inj' inner rfl
      rw [List.getLast?_cons, isBody.lineFeed]
      rfl

theorem Run.not_mem {inClass : Char → Bool} {text : List Char} {c : Char} (isRun : Run inClass text)
    (outside : inClass c = false) : c ∉ text := by
  intro member
  exact Bool.false_ne_true (outside.symm.trans (isRun.2 c member))

theorem Minus.not_mem {minus : List Char} (isMinus : Minus minus) : '\n' ∉ minus := by
  rcases isMinus with rfl | rfl <;> decide

theorem Exponent.not_mem {exponent : List Char} (isExponent : Exponent exponent) :
    '\n' ∉ exponent := by
  cases isExponent with
  | missing => exact List.not_mem_nil
  | given isMark isSign isRun =>
    have noDigit := isRun.not_mem (c := '\n') rfl
    rcases isMark with rfl | rfl <;> rcases isSign with rfl | rfl | rfl <;> simpa using noDigit

/-- In a token a line feed stands behind a backslash. -/
theorem lineFeed_of_matches {kind : TokenKind} {before after : List Char}
    (isToken : kind.Matches (before ++ '\n' :: after)) : before.getLast? = some '\\' := by
  have member : '\n' ∈ before ++ '\n' :: after :=
    List.mem_append_right before List.mem_cons_self
  have word : ∀ {c : Char} {rest : List Char}, isWordStart c = true →
      (∀ d ∈ rest, isWordChar d = true) → '\n' ∉ c :: rest := by
    intro c rest start all inWord
    rcases List.mem_cons.mp inWord with rfl | inRest
    · exact absurd start (by decide)
    · exact absurd (all '\n' inRest) (by decide)
  generalize same : before ++ '\n' :: after = piece at isToken member
  cases isToken with
  | keyword start all _ => exact absurd member (word start all)
  | identifier start all _ => exact absurd member (word start all)
  | value isName => exact absurd member (by simpa using isName.not_mem rfl)
  | label isName => exact absurd member (by simpa using isName.not_mem rfl)
  | «symbol» isName => exact absurd member (by simpa using isName.not_mem rfl)
  | typeName isName => exact absurd member (by simpa using isName.not_mem rfl)
  | attributeName isName => exact absurd member (by simpa using isName.not_mem rfl)
  | integer isMinus isRun =>
    rcases List.mem_append.mp member with inMinus | inDigits
    · exact absurd inMinus isMinus.not_mem
    · exact absurd inDigits (isRun.not_mem rfl)
  | hexadecimal isRun => exact absurd member (by simpa using isRun.not_mem rfl)
  | float isMinus isRun arePlaces isExponent =>
    simp only [List.mem_append, List.mem_cons] at member
    rcases member with inMinus | inDigits | isPoint | inPlaces | inExponent
    · exact absurd inMinus isMinus.not_mem
    · exact absurd inDigits (isRun.not_mem rfl)
    · cases isPoint
    · exact absurd inPlaces (arePlaces.not_mem rfl)
    · exact absurd inExponent isExponent.not_mem
  | punct mark => cases mark <;> exact absurd member (by decide)
  | string isLiteral =>
    subst same
    exact isLiteral.lineFeed
  | quotedSymbol isLiteral =>
    cases before with
    | nil => cases same
    | cons c before =>
      obtain ⟨_, rfl⟩ := List.cons.inj same
      rw [List.getLast?_cons, isLiteral.lineFeed]
      rfl

end Shape

end CirText
