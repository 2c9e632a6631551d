import CirText.Proofs.Token.Contents
import CirText.Proofs.Token.Grammar
import CirText.Proofs.Token.Partition
import CirText.Parser.Basic
import CirText.Scope.Basic
import Mathlib.Data.List.TakeWhile

/-!
# The spelling of names

A name that is spelled is read as one token. Symbols that are not plain are quoted; quoting is
undone by reading if, and only if, it needs none of the escapes by code point, which are written but
not read.
-/

namespace CirText

/-! ## Quoting -/

namespace Text.Quoted

/-- Whether a character between quotes stands for itself, or is written by a backslash and one of
the characters that are read after it. -/
def isReadable (c : Char) : Bool :=
  encodeChar c == [c] || "0trn\"\\".toList.any fun mark => encodeChar c == ['\\', mark]

theorem decodeBody_cons {c : Char} (literal : c ≠ '\\') (rest : List Char) :
    decodeBody (c :: rest) = c :: decodeBody rest := by
  rw [decodeBody]
  · rintro rfl
    exact absurd rfl literal
  · rintro _ rfl
    exact absurd rfl literal
  · rintro _ _ rfl
    exact absurd rfl literal

theorem decodeBody_short {mark c : Char} (short : shortEscape? mark = some c) (rest : List Char) :
    decodeBody ('\\' :: mark :: rest) = c :: decodeBody rest := by
  rw [decodeBody, short]
  · rfl
  · rintro rfl
    cases short

/-- The two ways in which a readable character is written. -/
theorem encodeChar_cases {c : Char} (readable : isReadable c = true) :
    (encodeChar c = [c] ∧ c ≠ '\\' ∧ c ≠ '"' ∧ c ≠ '\n') ∨
      ∃ mark, encodeChar c = ['\\', mark] ∧ shortEscape? mark = some c := by
  rcases Bool.or_eq_true_iff.1 readable with literal | escaped
  · have same := beq_iff_eq.1 literal
    refine .inl ⟨same, ?_, ?_, ?_⟩
    all_goals
      rintro rfl
      exact absurd same (by decide)
  · right
    obtain ⟨mark, _, same⟩ := List.any_eq_true.1 escaped
    have same := beq_iff_eq.1 same
    refine ⟨mark, same, ?_⟩
    unfold encodeChar at same
    repeat' split at same
    -- Each short escape is read back, and there is no other with two characters.
    all_goals
      first
      | cases same
        subst c
        rfl
      | cases same

/-- A character that is not readable is written by its code point. -/
theorem encodeChar_of_not_isReadable {c : Char} (unreadable : isReadable c = false) :
    encodeChar c = '\\' :: 'u' :: '{' :: (hexDigits c.toNat ++ ['}']) := by
  unfold isReadable at unreadable
  obtain ⟨noLiteral, noShort⟩ := Bool.or_eq_false_iff.mp unreadable
  have notShort : ∀ mark ∈ "0trn\"\\".toList, encodeChar c ≠ ['\\', mark] := by
    intro mark member same
    exact absurd (beq_iff_eq.mpr same) (List.any_eq_false.mp noShort mark member)
  have notLiteral : encodeChar c ≠ [c] := beq_eq_false_iff_ne.mp noLiteral
  unfold encodeChar at notShort notLiteral ⊢
  repeat' split at notShort
  all_goals first
    | exact absurd rfl (notShort _ (by decide))
    | simp_all

/-- The digits of a code point are hexadecimal digits. -/
theorem isHexDigit_of_mem_hexDigits {n : Nat} {c : Char} (member : c ∈ hexDigits n) :
    Shape.isHexDigit c = true := by
  have digit : ∀ d < 16, Shape.isHexDigit d.digitChar = true := by decide
  induction n using Nat.strongRecOn with
  | ind n ih =>
    rw [hexDigits, Nat.toDigits_eq_if (by decide)] at member
    split at member
    · rename_i small
      rw [List.mem_singleton.mp member]
      exact digit n small
    · rename_i large
      rcases List.mem_append.mp member with earlier | last
      · exact ih (n / 16) (by omega) earlier
      · rw [List.mem_singleton.mp last]
        exact digit (n % 16) (Nat.mod_lt n (by decide))

/-- What is written for a character may stand between quotes. -/
theorem stringBody_encodeChar (c : Char) {rest : List Char} (more : Shape.StringBody rest) :
    Shape.StringBody (encodeChar c ++ rest) := by
  cases readable : isReadable c with
  | true =>
    rcases encodeChar_cases readable with ⟨same, noEscape, noQuote, noBreak⟩ | ⟨mark, same, _⟩
    · rw [same]
      exact .plain noQuote noEscape noBreak more
    · rw [same]
      exact .escape more
  | false =>
    have plain : ∀ {digits : List Char}, (∀ d ∈ digits, Shape.isHexDigit d = true) →
        Shape.StringBody (digits ++ '}' :: rest) := by
      intro digits all
      induction digits with
      | nil => exact .plain (by decide) (by decide) (by decide) more
      | cons d digits ih =>
        obtain ⟨isDigit, others⟩ := List.forall_mem_cons.mp all
        refine .plain ?_ ?_ ?_ (ih others)
        all_goals
          rintro rfl
          exact absurd isDigit (by decide)
    rw [encodeChar_of_not_isReadable readable]
    simp only [List.cons_append, List.append_assoc]
    exact .escape (.plain (by decide) (by decide) (by decide)
      (plain fun d member => isHexDigit_of_mem_hexDigits member))

/-- The quoted form of any text is a string literal. -/
theorem isLiteral_encode (text : List Char) : Shape.StringLiteral (encode text) := by
  refine ⟨encodeBody text, rfl, ?_⟩
  induction text with
  | nil => exact .nil
  | cons c text ih => exact stringBody_encodeChar c ih

/-- A character as it is read after it was written between quotes. -/
def readBack (c : Char) : List Char :=
  if isReadable c then [c] else encodeChar c

theorem decodeBody_append {plain : List Char} (literal : ∀ c ∈ plain, c ≠ '\\') (rest : List Char) :
    decodeBody (plain ++ rest) = plain ++ decodeBody rest := by
  induction plain with
  | nil => rfl
  | cons c plain ih =>
    obtain ⟨here, others⟩ := List.forall_mem_cons.mp literal
    rw [List.cons_append, decodeBody_cons here, ih others, List.cons_append]

theorem decodeBody_encodeChar (c : Char) (rest : List Char) :
    decodeBody (encodeChar c ++ rest) = readBack c ++ decodeBody rest := by
  unfold readBack
  cases readable : isReadable c with
  | true =>
    rcases encodeChar_cases readable with ⟨same, literal, _, _⟩ | ⟨mark, same, short⟩
    · rw [same, List.singleton_append, decodeBody_cons literal]
      rfl
    · rw [same, List.cons_append, List.singleton_append, decodeBody_short short]
      rfl
  | false =>
    -- The escape is read as it stands, a backslash and a letter first.
    have literal : ∀ d ∈ '{' :: (hexDigits c.toNat ++ ['}']), d ≠ '\\' := by
      rintro d member rfl
      simp only [List.mem_cons, List.mem_append, List.not_mem_nil, or_false] at member
      rcases member with brace | digit | brace
      · cases brace
      · exact absurd (isHexDigit_of_mem_hexDigits digit) (by decide)
      · cases brace
    have escape : ∀ rest, decodeBody ('\\' :: 'u' :: rest) = '\\' :: 'u' :: decodeBody rest := by
      intro rest
      rw [decodeBody]
      · rfl
      · rintro ⟨⟩
    rw [encodeChar_of_not_isReadable readable, List.cons_append, List.cons_append, escape,
      decodeBody_append literal]
    rfl

/-- What is quoted is read back character by character. -/
theorem decode_encode (text : List Char) : decode (encode text) = text.flatMap readBack := by
  have last : (encodeBody text ++ ['"']).getLast? = some '"' := by simp
  rw [encode, List.cons_append, decode, if_pos last, List.dropLast_concat]
  induction text with
  | nil => simp [encodeBody, decodeBody]
  | cons c text ih =>
    rw [List.flatMap_cons, ← ih (by simp)]
    exact decodeBody_encodeChar c (encodeBody text)

theorem length_readBack_pos (c : Char) : 0 < (readBack c).length := by
  unfold readBack
  cases readable : isReadable c with
  | true => exact Nat.one_pos
  | false =>
    rw [encodeChar_of_not_isReadable readable]
    exact Nat.succ_pos _

theorem length_le_flatMap_readBack (text : List Char) :
    text.length ≤ (text.flatMap readBack).length := by
  induction text with
  | nil => exact Nat.le_refl _
  | cons c text ih =>
    have positive := length_readBack_pos c
    rw [List.flatMap_cons, List.length_append, List.length_cons]
    omega

/-- What is quoted is read as it was just if all its characters are readable. -/
theorem decode_encode_eq_iff {text : List Char} :
    decode (encode text) = text ↔ ∀ c ∈ text, isReadable c = true := by
  rw [decode_encode]
  induction text with
  | nil => simp
  | cons c text ih =>
    rw [List.flatMap_cons, List.forall_mem_cons]
    constructor
    · intro same
      have readable : isReadable c = true := by
        by_contra unreadable
        -- An escape that is not read back is longer than one character.
        have escaped := encodeChar_of_not_isReadable (Bool.eq_false_iff.mpr unreadable)
        have size := congrArg List.length same
        have bound := length_le_flatMap_readBack text
        rw [readBack, if_neg unreadable, escaped] at size
        simp only [List.length_append, List.length_cons, List.length_nil] at size
        omega
      rw [readBack, if_pos readable, List.singleton_append] at same
      exact ⟨readable, ih.mp (List.cons.inj same).2⟩
    · rintro ⟨readable, others⟩
      rw [readBack, if_pos readable, List.singleton_append, ih.mpr others]

end Text.Quoted

/-! ## Texts of tokens -/

namespace Lexer

open CirText.Shape

/-- A punctuation mark has the text of its class. -/
theorem Lexed.punct {mark : Punct} {text : List Char} (lexed : Lexed (.punct mark) text) :
    text = mark.text.toList := by
  obtain ⟨_, after, found⟩ := lexed
  obtain ⟨starts, length⟩ := punct?_eq_some_iff.1 (shaped_of_recognize found)
  have inText := List.prefix_of_prefix_length_le starts (List.prefix_append text after)
    (Nat.le_of_eq length.symm)
  exact (inText.eq_of_length length.symm).symm

theorem Lexed.sigil {kind : NameKind} {text : List Char} (notSymbol : kind ≠ .symbol)
    (lexed : Lexed (Parser.nameToken kind) text) : text = kind.sigil :: text.drop 1 := by
  obtain ⟨nonempty, after, found⟩ := lexed
  obtain ⟨c, text, rfl⟩ := List.exists_cons_of_ne_nil nonempty
  have first : ∀ {sigil count}, sigil? sigil isNameChar (c :: text ++ after) = some count →
      c = sigil := by
    intro sigil count found
    rw [List.cons_append, sigil?] at found
    split at found
    · assumption
    · cases found
  cases kind with
  | value => rw [first (shaped_of_recognize found)]; rfl
  | label => rw [first (shaped_of_recognize found)]; rfl
  | symbol => exact absurd rfl notSymbol

/-- The name of a value or a label is spelled as it was written. -/
theorem Lexed.spelling {kind : NameKind} {token : Token} (notSymbol : kind ≠ .symbol)
    (isName : token.kind = Parser.nameToken kind) (lexed : Lexed token.kind token.text.toList) :
    kind.spelling token.name = token.text := by
  have name : token.name = String.ofList (token.text.toList.drop 1) := by
    unfold Token.name
    rw [isName]
    cases kind with
    | «symbol» => exact absurd rfl notSymbol
    | _ => rfl
  rw [isName] at lexed
  rw [NameKind.spelling, if_pos (.inl notSymbol), name, String.toList_ofList,
    ← lexed.sigil notSymbol, String.ofList_toList]

/-- The two ways in which a symbol is spelled. -/
theorem spelling_symbol (name : String) :
    (NameKind.symbol.spelling name).toList = '@' :: name.toList ∧ name.toList ≠ [] ∧
        (∀ c ∈ name.toList, isNameChar c = true) ∨
      (NameKind.symbol.spelling name).toList = '@' :: Text.Quoted.encode name.toList := by
  unfold NameKind.spelling
  split
  · rename_i either
    obtain ⟨nonempty, all⟩ := Bool.and_eq_true_iff.1 (either.resolve_left (not_not_intro rfl))
    refine .inl ⟨String.toList_ofList, ?_, fun c member => ?_⟩
    · intro empty
      rw [empty] at nonempty
      cases nonempty
    · exact List.all_eq_true.1 all c member
  · exact .inr String.toList_ofList

theorem head?_ne_quote {name : List Char} (all : ∀ c ∈ name, isNameChar c = true) :
    name.head? ≠ some '"' := by
  intro isQuote
  exact absurd (all _ (List.mem_of_head? isQuote)) (by decide)

/-- The texts that symbols are spelled with are tokens. -/
theorem matches_symbol (name : String) :
    TokenKind.Matches .symbol (NameKind.symbol.spelling name).toList := by
  rcases spelling_symbol name with ⟨same, nonempty, all⟩ | same
  · rw [same]
    exact .symbol ⟨nonempty, all⟩
  · rw [same]
    exact .quotedSymbol (Text.Quoted.isLiteral_encode name.toList)

theorem recognize_symbol (name : String) :
    recognize (NameKind.symbol.spelling name).toList =
      some (.symbol, (NameKind.symbol.spelling name).toList.length) := by
  obtain ⟨found, isFound, longer⟩ := recognize_of_matches [] (matches_symbol name)
  obtain ⟨kind, count⟩ := found
  rw [List.append_nil] at isFound
  have bound := (fits_of_recognize isFound).2
  have isSymbol : kind = .symbol := by
    rcases spelling_symbol name with ⟨same, _, _⟩ | same
    all_goals
      rw [same, recognize_at] at isFound
      obtain ⟨_, _, pair⟩ := Option.map_eq_some_iff.mp isFound
      exact (Prod.mk.inj pair).1.symm
  rw [isFound, isSymbol, Nat.le_antisymm bound longer]

/-- A symbol is spelled as a token. -/
theorem lexed_symbol (name : String) : Lexed .symbol (NameKind.symbol.spelling name).toList := by
  refine ⟨?_, [], ?_⟩
  · rcases spelling_symbol name with ⟨same, _⟩ | same <;> simp [same]
  · rw [List.append_nil]
    exact recognize_symbol name

/-- A code point in front of all ranges is in none of them. -/
theorem inRanges_of_lt {ranges : List Text.CodeRange} {code bound : Nat}
    (above : (ranges.all fun range => decide (bound ≤ range.1)) = true) (small : code < bound) :
    Text.inRanges ranges code = false := by
  rw [Text.inRanges, List.any_eq_false]
  intro range member inside
  have starts := of_decide_eq_true (List.all_eq_true.1 above range member)
  have inside := of_decide_eq_true (Bool.and_eq_true_iff.1 inside).1
  omega

theorem isPrintable_of_between {c : Char} (low : 0x1F < c.toNat) (high : c.toNat < 0x7F) :
    Text.isPrintable c = true := by
  have others : Text.inRanges Text.unprintableRanges.tail c.toNat = false :=
    inRanges_of_lt (by decide +kernel) high
  rw [Text.isPrintable, Bool.not_eq_true', ← others]
  change (decide (0 ≤ c.toNat) && decide (c.toNat ≤ 0x1F) ||
    Text.inRanges Text.unprintableRanges.tail c.toNat) = _
  rw [decide_eq_false (Nat.not_le.2 low), Bool.and_false, Bool.false_or]

theorem code_of_isNameChar {c : Char} (isName : isNameChar c = true) :
    0x1F < c.toNat ∧ c.toNat < 0x7F := by
  simp only [isNameChar, isWordChar, Char.isAlphanum, Char.isAlpha, Char.isUpper, Char.isLower,
    Char.isDigit, Bool.or_eq_true, Bool.and_eq_true, decide_eq_true_eq, UInt32.le_iff_toNat_le,
    ge_iff_le, beq_iff_eq] at isName
  rcases isName with (((letter | rfl) | rfl) | rfl) | rfl
  · change ((65 ≤ c.toNat ∧ c.toNat ≤ 90) ∨ (97 ≤ c.toNat ∧ c.toNat ≤ 122)) ∨
      (48 ≤ c.toNat ∧ c.toNat ≤ 57) at letter
    omega
  all_goals decide

/-- The characters of plain names are readable between quotes. -/
theorem isReadable_of_isNameChar {c : Char} (isName : isNameChar c = true) :
    Text.Quoted.isReadable c = true := by
  obtain ⟨low, high⟩ := code_of_isNameChar isName
  have alone : Text.extendsGrapheme c = false :=
    inRanges_of_lt (by decide +kernel) high
  have plain : ∀ special ∈ ['\x00', '\t', '\r', '\n', '"', '\\'], c ≠ special := by
    rintro special member rfl
    have none : ['\x00', '\t', '\r', '\n', '"', '\\'].all (fun special => !isNameChar special) =
        true := by decide
    have noName := List.all_eq_true.1 none c member
    rw [isName] at noName
    cases noName
  have literal : Text.Quoted.encodeChar c = [c] := by
    simp only [List.forall_mem_cons] at plain
    obtain ⟨noNull, noTab, noReturn, noBreak, noQuote, noBackslash, _⟩ := plain
    rw [Text.Quoted.encodeChar, if_neg noNull, if_neg noTab, if_neg noReturn, if_neg noBreak,
      if_neg noQuote, if_neg noBackslash, alone, isPrintable_of_between low high]
    rfl
  rw [Text.Quoted.isReadable, literal, beq_self_eq_true, Bool.true_or]

/-- The name of a symbol that is spelled is the name, just if all its characters are readable. -/
theorem name_symbol_eq_iff (name : String) (span : Span) :
    Token.name ⟨.symbol, NameKind.symbol.spelling name, span⟩ = name ↔
      ∀ c ∈ name.toList, Text.Quoted.isReadable c = true := by
  unfold Token.name
  rcases spelling_symbol name with ⟨same, nonempty, all⟩ | same
  · simp only [same, List.drop_one, List.tail_cons, if_neg (head?_ne_quote all),
      String.ofList_toList]
    exact iff_of_true trivial fun c member => isReadable_of_isNameChar (all c member)
  · have quoted : (Text.Quoted.encode name.toList).head? = some '"' := rfl
    simp only [same, List.drop_one, List.tail_cons, if_pos quoted]
    rw [← Text.Quoted.decode_encode_eq_iff]
    constructor
    · intro back
      rw [← String.toList_ofList (l := Text.Quoted.decode _), back]
    · intro back
      rw [back, String.ofList_toList]

end Lexer

/-- A source unit that is recognised as a whole is one token. -/
theorem lexItems_of_recognize {source : String} {kind : TokenKind}
    (found : Shape.recognize source.toList = some (kind, source.toList.length)) :
    lexItems source = [.token ⟨kind, source, ⟨0, source.utf8ByteSize⟩⟩] := by
  have size := Text.byteSize_toList source
  have same : String.ofList source.toList = source := String.ofList_toList
  unfold lexItems
  generalize source.toList = text at found size same ⊢
  cases text with
  | nil => cases found
  | cons c rest =>
    have isStart := Shape.starts_of_recognize found
    have noBlank : Text.isBlank c = false := Shape.not_isBlank_of_starts isStart
    have noSlash : c ≠ '/' := by
      rintro rfl
      exact absurd isStart (by decide)
    have here : Lexer.skipTrivia false 0 (c :: rest) = (0, c :: rest) := by
      simp [Lexer.skipTrivia, noBlank, noSlash]
    have nothing : ∀ offset, Lexer.itemsFrom offset [] = [] := by
      intro offset
      rw [Lexer.itemsFrom_eq]
      rfl
    rw [Lexer.itemsFrom_eq, here]
    simp only [Lexer.item, found, List.length_cons, Nat.add_sub_cancel, List.take_length,
      List.drop_length, nothing, same, size, Nat.zero_add]

/-- The spelling of a symbol is one token without errors, which names the symbol just if none of its
characters is written by its code point. -/
theorem lexItems_spelling (name : String) :
    lexItems (NameKind.symbol.spelling name) =
        [.token ⟨.symbol, NameKind.symbol.spelling name,
          ⟨0, (NameKind.symbol.spelling name).utf8ByteSize⟩⟩] ∧
      (Token.name ⟨.symbol, NameKind.symbol.spelling name,
          ⟨0, (NameKind.symbol.spelling name).utf8ByteSize⟩⟩ = name ↔
        ∀ c ∈ name.toList, Text.Quoted.isReadable c = true) :=
  ⟨lexItems_of_recognize (Lexer.recognize_symbol name), Lexer.name_symbol_eq_iff name _⟩

/-- A control character is written by its code point, and what is read is the escape. -/
theorem control_not_read_back :
    (tokenize (NameKind.symbol.spelling "\x01")).errors = [] ∧
      (tokenize (NameKind.symbol.spelling "\x01")).tokens.map Token.name = ["\\u\x7b1\x7d"] ∧
      (tokenize (NameKind.symbol.spelling "\x01")).tokens.map Token.name ≠ ["\x01"] := by
  have spelled : NameKind.symbol.spelling "\x01" = "@\"\\u\x7b1\x7d\"" := by
    decide +kernel
  have names : (tokenize "@\"\\u\x7b1\x7d\"").tokens.map Token.name = ["\\u\x7b1\x7d"] := by
    cbv
  rw [spelled, names]
  exact ⟨by cbv, rfl, by decide⟩

end CirText
