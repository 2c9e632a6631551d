import CirText.Proofs.Token.Partition
import CirText.Proofs.Token.Spelling

/-!
# Escapes in string literals

`meaning` reads the escapes of a string literal as they are documented: six short ones and `\x` with
exactly two hexadecimal digits, and any other backslash stands for itself and is passed alone.
`decode` finds the same unless it comes to a `\x` in front of anything else that it takes for a
number, or in front of characters among which a documented escape begins; `Settled` says that it
does not. It takes a sign and a digit for a number, and a digit alone in front of the closing quote,
and where there is no number it passes the two characters behind the `\x` unread.
-/

namespace CirText

namespace Text.Quoted

/-! ## What is documented -/

/-- The short escapes: the character behind the backslash, and what the two stand for. -/
def shortEscapes : List (Char × Char) :=
  [('\\', '\\'), ('"', '"'), ('n', '\n'), ('t', '\t'), ('r', '\r'), ('0', '\x00')]

/-- The value of a hexadecimal digit, which is its place among the digits. -/
def digitValue? (c : Char) : Option Nat :=
  "0123456789abcdef".toList.idxOf? c <|> "0123456789ABCDEF".toList.idxOf? c

/-- The character that a documented escape stands for and the number of characters that it takes
behind the backslash, if a text is what follows the backslash of one. -/
def documented? : List Char → Option (Char × Nat)
  | 'x' :: high :: low :: _ => do
    let high ← digitValue? high
    let low ← digitValue? low
    return (Char.ofNat (16 * high + low), 3)
  | mark :: _ => (shortEscapes.lookup mark).map (·, 1)
  | [] => none

/-- What the characters between the quotes stand for, read from left to right. -/
def meaning : List Char → List Char
  | [] => []
  | '\\' :: rest =>
    match documented? rest with
    | some (c, size) => c :: meaning (rest.drop size)
    | none => '\\' :: meaning rest
  | c :: rest => c :: meaning rest
termination_by text => text.length
decreasing_by
  all_goals
    simp only [List.length_cons, List.length_drop]
    omega

/-- Whether a text starts with a documented escape. -/
def startsEscape : List Char → Bool
  | '\\' :: rest => (documented? rest).isSome
  | _ => false

/-- Whether every `\x` that is read stands in front of two hexadecimal digits, or in front of two
characters, or fewer at the end, that are not taken for a number and of which none begins a
documented escape. -/
inductive Settled : List Char → Prop where
  | nil : Settled []
  | plain {c : Char} {rest : List Char} (noEscape : c ≠ '\\') (more : Settled rest) :
      Settled (c :: rest)
  | other {mark : Char} {rest : List Char} (noHex : mark ≠ 'x') (more : Settled rest) :
      Settled ('\\' :: mark :: rest)
  | hex {high low : Char} {rest : List Char} (isHigh : (digitValue? high).isSome)
      (isLow : (digitValue? low).isSome) (more : Settled rest) :
      Settled ('\\' :: 'x' :: high :: low :: rest)
  | unread {rest : List Char} (noNumber : hexChar? (rest.take 2) = none)
      (noFirst : startsEscape rest = false) (noSecond : startsEscape (rest.drop 1) = false)
      (more : Settled (rest.drop 2)) : Settled ('\\' :: 'x' :: rest)

/-! ## What is read -/

theorem shortEscape?_eq (mark : Char) : shortEscape? mark = shortEscapes.lookup mark := by
  unfold shortEscape?
  repeat' split
  all_goals
    first
    | subst mark
      rfl
    | simp [shortEscapes, List.lookup_cons, beq_false_of_ne, *]

theorem digitValue?_lt {c : Char} {value : Nat} (isValue : digitValue? c = some value) :
    value < 16 := by
  have place : ∀ digits : List Char, digits.idxOf? c = some value → value < digits.length :=
    fun digits found => (List.findIdx?_eq_some_iff_findIdx_eq.1 found).1
  rcases (Option.orElse_eq_some _ _ _).1 isValue with lower | ⟨_, upper⟩
  · exact place _ lower
  · exact place _ upper

theorem hexValue?_eq (c : Char) : hexValue? c = digitValue? c := by
  have ascii : ∀ code < 128, hexValue? (Char.ofNat code) = digitValue? (Char.ofNat code) := by
    decide +kernel
  by_cases small : c.toNat < 128
  · rw [← Char.ofNat_toNat c]
    exact ascii c.toNat small
  · have notLe : ∀ digit : Char, digit.toNat < 128 → ¬c ≤ digit := fun digit isSmall le =>
      small (Nat.lt_of_le_of_lt (UInt32.le_iff_toNat_le.1 le) isSmall)
    have notIn : ∀ digits : List Char, digits.all (·.toNat < 128) = true → digits.idxOf? c = none :=
      fun digits all => List.idxOf?_eq_none_iff.2 fun member =>
        small (of_decide_eq_true (List.all_eq_true.1 all c member))
    rw [digitValue?, notIn _ (by decide), notIn _ (by decide)]
    simp [hexValue?, notLe]

theorem startsEscape_of_ne {c : Char} (noEscape : c ≠ '\\') (rest : List Char) :
    startsEscape (c :: rest) = false := by
  rw [startsEscape]
  rintro _ ⟨⟩
  exact noEscape rfl

theorem startsEscape_of_undocumented {rest : List Char} (nothing : documented? rest = none) :
    startsEscape ('\\' :: rest) = false := by
  rw [startsEscape, nothing, Option.isSome_none]

/-- A character that does not begin a documented escape stands for itself. -/
theorem meaning_cons {c : Char} {rest : List Char} (noEscape : startsEscape (c :: rest) = false) :
    meaning (c :: rest) = c :: meaning rest := by
  by_cases backslash : c = '\\'
  · subst backslash
    rw [startsEscape, Option.isSome_eq_false_iff, Option.isNone_iff_eq_none] at noEscape
    rw [meaning, noEscape]
  · rw [meaning]
    rintro rfl
    exact absurd rfl backslash

/-- Two characters of which none begins a documented escape are passed. -/
theorem meaning_take_two {rest : List Char} (noFirst : startsEscape rest = false)
    (noSecond : startsEscape (rest.drop 1) = false) :
    meaning rest = rest.take 2 ++ meaning (rest.drop 2) := by
  match rest with
  | [] => rfl
  | [_] => exact meaning_cons noFirst
  | _ :: _ :: _ => rw [meaning_cons noFirst, meaning_cons noSecond]; rfl

theorem meaning_documented {rest : List Char} {c : Char} {size : Nat}
    (found : documented? rest = some (c, size)) :
    meaning ('\\' :: rest) = c :: meaning (rest.drop size) := by
  rw [meaning, found]

theorem documented?_other {mark : Char} (noHex : mark ≠ 'x') (rest : List Char) :
    documented? (mark :: rest) = (shortEscapes.lookup mark).map (·, 1) := by
  rw [documented?]
  rintro _ _ _ rfl
  exact absurd rfl noHex

/-- Two characters of which the first is no sign are read as they are documented. -/
theorem documented?_pair {high : Char} (noSign : high ≠ '+') (low : Char) (rest : List Char) :
    documented? ('x' :: high :: low :: rest) = (hexChar? [high, low]).map (·, 3) := by
  rw [hexChar?, hexValue?_eq, hexValue?_eq, documented?]
  · cases digitValue? high <;> cases digitValue? low <;> rfl
  · rintro rfl
    exact absurd rfl noSign

/-- There is no documented escape where no number is found. -/
theorem documented?_of_hexChar?_eq_none {rest : List Char}
    (noNumber : hexChar? (rest.take 2) = none) :
    documented? ('x' :: rest) = none := by
  match rest with
  | [] => rfl
  | [_] => rfl
  | high :: low :: rest =>
    by_cases sign : high = '+'
    · rw [sign]
      rfl
    · rw [documented?_pair sign, ← Option.map_none]
      exact congrArg _ noNumber

/-- An undocumented escape is kept with the character behind the backslash. -/
theorem decodeBody_kept {mark : Char} (noHex : mark ≠ 'x') (noShort : shortEscape? mark = none)
    (rest : List Char) : decodeBody ('\\' :: mark :: rest) = '\\' :: mark :: decodeBody rest := by
  rw [decodeBody, noShort]
  · rfl
  · exact noHex

theorem decodeBody_hex (rest : List Char) :
    decodeBody ('\\' :: 'x' :: rest) =
      ((hexChar? (rest.take 2)).elim ('\\' :: 'x' :: rest.take 2) ([·])) ++
        decodeBody (rest.drop 2) := by
  rw [decodeBody]
  cases hexChar? (rest.take 2) <;> rfl

/-- Settled text is read as it is documented. -/
theorem decodeBody_eq_meaning {body : List Char} (settled : Settled body) :
    decodeBody body = meaning body := by
  induction settled with
  | nil => simp [decodeBody, meaning]
  | plain noEscape more ih =>
    rw [decodeBody_cons noEscape, meaning_cons (startsEscape_of_ne noEscape _), ih]
  | @other mark rest noHex more ih =>
    cases short : shortEscapes.lookup mark with
    | some c =>
      have found : documented? (mark :: rest) = some (c, 1) := by
        rw [documented?_other noHex, short, Option.map_some]
      rw [decodeBody_short ((shortEscape?_eq mark).trans short), meaning_documented found, ih,
        List.drop_one, List.tail_cons]
    | none =>
      have noEscape : mark ≠ '\\' := by
        rintro rfl
        cases short
      have nothing : documented? (mark :: rest) = none := by
        rw [documented?_other noHex, short, Option.map_none]
      rw [meaning_cons (startsEscape_of_undocumented nothing),
        meaning_cons (startsEscape_of_ne noEscape rest), ← ih]
      exact decodeBody_kept noHex ((shortEscape?_eq mark).trans short) rest
  | @hex high low rest isHigh isLow more ih =>
    have noSign : high ≠ '+' := by
      rintro rfl
      cases isHigh
    obtain ⟨high', isHigh⟩ := Option.isSome_iff_exists.1 isHigh
    obtain ⟨low', isLow⟩ := Option.isSome_iff_exists.1 isLow
    have found : documented? ('x' :: high :: low :: rest) =
        some (Char.ofNat (16 * high' + low'), 3) := by
      rw [documented?, isHigh, isLow]
      rfl
    have isNumber : hexChar? [high, low] = some (Char.ofNat (16 * high' + low')) := by
      rw [documented?_pair noSign, Option.map_eq_some_iff] at found
      obtain ⟨c, isNumber, same⟩ := found
      rw [isNumber, (Prod.mk.inj same).1]
    rw [meaning_documented found, decodeBody_hex]
    change (hexChar? [high, low]).elim _ _ ++ decodeBody rest = _ :: meaning rest
    rw [isNumber, ih]
    rfl
  | @unread rest noNumber noFirst noSecond more ih =>
    have nothing := documented?_of_hexChar?_eq_none noNumber
    rw [decodeBody_hex, noNumber, ih, meaning_cons (startsEscape_of_undocumented nothing),
      meaning_cons (startsEscape_of_ne (by decide) rest), meaning_take_two noFirst noSecond]
    rfl

/-- A sign and a digit are read as a number, which they are not documented to be. -/
theorem decodeBody_sign_ne {digit : Char} (isDigit : (digitValue? digit).isSome)
    (rest : List Char) : decodeBody ('\\' :: 'x' :: '+' :: digit :: rest) ≠
      meaning ('\\' :: 'x' :: '+' :: digit :: rest) := by
  obtain ⟨value, isValue⟩ := Option.isSome_iff_exists.1 isDigit
  have undocumented : startsEscape ('\\' :: 'x' :: '+' :: digit :: rest) = false := rfl
  have isNumber : hexChar? ['+', digit] = some (Char.ofNat value) := by
    rw [hexChar?, hexValue?_eq, isValue, Option.map_some]
  have control : ∀ code < 16, Char.ofNat code ≠ '\\' := by decide
  rw [decodeBody_hex, meaning_cons undocumented]
  change (hexChar? ['+', digit]).elim _ _ ++ _ ≠ _
  rw [isNumber]
  intro same
  exact control value (digitValue?_lt isValue) (List.cons.inj same).1

end Text.Quoted

/-! ## Literals in tokens -/

/-- The characters between the quotes of a string, or of a symbol that is quoted. -/
def Token.quoted? (token : Token) : Option (List Char) :=
  match token.kind, token.text.toList with
  | .string, '"' :: rest => some rest.dropLast
  | .symbol, '@' :: '"' :: rest => some rest.dropLast
  | _, _ => none

theorem Text.Quoted.decode_literal (body : List Char) :
    decode ('"' :: (body ++ ['"'])) = decodeBody body := by
  have last : (body ++ ['"']).getLast? = some '"' := by simp
  rw [decode, if_pos last, List.dropLast_concat]

theorem Lexer.Cut.reads_of_mem {offset : Nat} {text : List Char} {items : List LexItem}
    (cut : Cut offset text items) {item : LexItem} (member : item ∈ items) :
    ∃ piece rest, item.Reads piece rest := by
  induction cut with
  | done => cases member
  | item isGap nonempty reads span more ih =>
    rcases List.mem_cons.1 member with rfl | later
    · exact ⟨_, _, reads⟩
    · exact ih later

/-- Every token matches its class, whether there are errors elsewhere or not. -/
theorem matches_of_mem {source : String} {token : Token}
    (member : token ∈ (tokenize source).tokens) :
    token.kind.Matches token.text.toList := by
  obtain ⟨item, inItems, isToken⟩ := List.mem_filterMap.1 member
  obtain ⟨piece, rest, reads⟩ := (Lexer.cut_itemsFrom 0 source.toList).reads_of_mem inItems
  cases item with
  | error fault => cases isToken
  | token found =>
    cases isToken
    rw [reads.1, String.toList_ofList]
    exact reads.2.1

theorem Token.isSome_quoted?_of_string {token : Token} (isString : token.kind = .string)
    (isToken : token.kind.Matches token.text.toList) : token.quoted?.isSome := by
  unfold Token.quoted?
  rw [isString] at isToken ⊢
  generalize token.text.toList = text at isToken
  cases isToken with
  | string isLiteral =>
    obtain ⟨body, rfl, -⟩ := isLiteral
    rfl

theorem Token.quoted?_spec {token : Token} (isToken : token.kind.Matches token.text.toList)
    {body : List Char} (quoted : token.quoted? = some body) :
    Shape.StringBody body ∧ token.name = String.ofList (Text.Quoted.decodeBody body) := by
  unfold Token.quoted? at quoted
  unfold Token.name
  generalize token.kind = kind at isToken quoted
  generalize token.text.toList = text at isToken quoted
  cases isToken with
  | string isLiteral =>
    obtain ⟨inside, rfl, isBody⟩ := isLiteral
    obtain rfl : (inside ++ ['"']).dropLast = body := Option.some.inj quoted
    rw [List.dropLast_concat]
    exact ⟨isBody, congrArg String.ofList (Text.Quoted.decode_literal inside)⟩
  | quotedSymbol isLiteral =>
    obtain ⟨inside, rfl, isBody⟩ := isLiteral
    obtain rfl : (inside ++ ['"']).dropLast = body := Option.some.inj quoted
    rw [List.dropLast_concat]
    exact ⟨isBody, congrArg String.ofList (Text.Quoted.decode_literal inside)⟩
  | «symbol» isName =>
    split at quoted
    · rename_i isString _
      cases isString
    · rename_i same
      obtain ⟨-, rfl⟩ := List.cons.inj same
      exact absurd (isName.2 '"' List.mem_cons_self) (by decide)
    · cases quoted
  | _ => cases quoted

/-- The name of every string and every quoted symbol is what its literal is documented to mean, if
the literal is settled. -/
theorem quoted_names (source : String) :
    ∀ token ∈ (tokenize source).tokens, (token.kind = .string → token.quoted?.isSome) ∧
      ∀ body, token.quoted? = some body → Shape.StringBody body ∧
        (Text.Quoted.Settled body → token.name = String.ofList (Text.Quoted.meaning body)) := by
  intro token member
  have isToken := matches_of_mem member
  refine ⟨fun isString => Token.isSome_quoted?_of_string isString isToken, fun body quoted => ?_⟩
  obtain ⟨isBody, name⟩ := Token.quoted?_spec isToken quoted
  refine ⟨isBody, fun settled => ?_⟩
  rw [name, Text.Quoted.decodeBody_eq_meaning settled]

/-- A string with a code, a short escape, a `\x` without a number, and a backslash in front of
anything else. -/
def settledString : String :=
  "\"\\x41\\n\\xZZ\\q\""

theorem quoted_names_settledString :
    ∃ token ∈ (tokenize settledString).tokens,
      token.quoted? = some ['\\', 'x', '4', '1', '\\', 'n', '\\', 'x', 'Z', 'Z', '\\', 'q'] ∧
        Text.Quoted.Settled ['\\', 'x', '4', '1', '\\', 'n', '\\', 'x', 'Z', 'Z', '\\', 'q'] ∧
        token.name = "A\n\\xZZ\\q" := by
  have settled : Text.Quoted.Settled
      ['\\', 'x', '4', '1', '\\', 'n', '\\', 'x', 'Z', 'Z', '\\', 'q'] :=
    .hex rfl rfl (.other (by decide) (.unread rfl rfl rfl (.other (by decide) .nil)))
  have tokens : (tokenize settledString).tokens = [⟨.string, settledString, ⟨0, 14⟩⟩] := by cbv
  have member : ⟨.string, settledString, ⟨0, 14⟩⟩ ∈ (tokenize settledString).tokens := by
    rw [tokens]
    exact List.mem_singleton.2 rfl
  obtain ⟨-, names⟩ := quoted_names settledString _ member
  refine ⟨_, member, by cbv, settled, ?_⟩
  rw [(names _ (by cbv)).2 settled]
  cbv

/-- A sign and one digit behind `\x` are decoded, so that two symbols have one name; and a `\x`
without a number swallows the escape behind it. -/
theorem escapes_misread :
    (tokenize "@\"\\x+f\" @\"\\x0f\" \"\\x\\n\"").errors = [] ∧
      (tokenize "@\"\\x+f\" @\"\\x0f\" \"\\x\\n\"").tokens.map Token.quoted? =
        [some ['\\', 'x', '+', 'f'], some ['\\', 'x', '0', 'f'], some ['\\', 'x', '\\', 'n']] ∧
      (tokenize "@\"\\x+f\" @\"\\x0f\" \"\\x\\n\"").tokens.map Token.name =
        ["\x0f", "\x0f", "\\x\\n"] ∧
      String.ofList (Text.Quoted.meaning ['\\', 'x', '+', 'f']) = "\\x+f" ∧
      String.ofList (Text.Quoted.meaning ['\\', 'x', '0', 'f']) = "\x0f" ∧
      String.ofList (Text.Quoted.meaning ['\\', 'x', '\\', 'n']) = "\\x\n" := by
  refine ⟨?_, ?_, ?_, ?_, ?_, ?_⟩ <;> cbv

end CirText
