import CirText.Proofs.Grammar.Passage
import CirText.Proofs.Reread.Modifiers
import CirText.Proofs.Reread.Similar

/-!
# Reading what a grammar describes again

What is read by a grammar is read again from the printed tokens of its pieces, if regions are and
the grammar is foreseen. The value that is read again is the same but for its places.
-/

namespace CirText

open CirText.Parser CirText.Reader

variable {R X α : Type}

namespace Parser

variable {source : String} {printed : List Char} {spelled : R → List Token → Prop}

/-! ## Runs of modifiers -/

/-- How to go on does not depend on which modifier comes next. -/
theorem face_of_modifier {word : String} {token : Token} (isWord : token.isWord word = true)
    (isModifier : word ∈ modifierWords) : token.face = (.identifier, none) := by
  obtain ⟨kind, same⟩ := Bool.and_eq_true_iff.1 isWord
  obtain rfl := beq_iff_eq.1 same
  rw [Token.face, if_neg fun masked => masked.2 isModifier, beq_iff_eq.1 kind]

/-- A run of modifiers goes on like another one if parsing looks through them for a colon alike. -/
theorem kindred_modifiers {rules : List ModifierRule} {modifiers written : List Modifier}
    {before after : Stage} {tokens beyond : List Token}
    (row : RowReads rules source.toList before modifiers after) (perm : written.Perm modifiers)
    (known : ∀ rule ∈ rules, rule.keyword ∈ modifierWords)
    (fits : ∀ modifier ∈ modifiers, modifier.rule ∈ rules)
    (isSpelled : Spelled printed spelled (written.flatMap Modifier.pieces) tokens)
    (kindred : Kindred after.rest beyond) (scans : Scans before.rest (tokens ++ beyond)) :
    Kindred before.rest (tokens ++ beyond) := by
  refine ⟨?_, scans.closes⟩
  cases row with
  | nil =>
    obtain rfl := perm.eq_nil
    obtain rfl : tokens = [] := isSpelled
    exact kindred.face
  | cons first rest =>
    have here := List.find?_some first.1
    have source : face before.rest = (.identifier, none) := by
      rw [Stage.rest, ← peek_face]
      exact face_of_modifier here (known _ (List.mem_of_find?_eq_some first.1))
    cases written with
    | nil => cases perm.nil_eq
    | cons modifier written =>
      obtain ⟨token, more, rfl, isWord, _⟩ := Spelled.word_cons (Spelled.blank_cons_iff.1 isSpelled)
      have inside := fits _ (perm.mem_iff.1 List.mem_cons_self)
      rw [source]
      exact face_of_modifier isWord (known _ inside)

/-- A run of modifiers is read again in the order in which it is written. -/
theorem recurs_modifierRun {S : Type} {region : RegionKind → Bool → Meaning R}
    (clean : (tokenize source).errors = []) {table : ModifierTable S} (lawful : table.Lawful)
    (simple : table.isSimple = true) (f : R → X) :
    Recurs source printed ((Grammar.modifierRun table).Reads region)
      (fun a => Spelled printed spelled ((Grammar.modifierRun table).pieces a))
      ((Grammar.modifierRun table).Same f) (Grammar.modifierRun (R := R) table).bars := by
  rintro before after _ tokens beyond ⟨modifiers, reads, rfl⟩ within isSpelled kindred barred
  obtain ⟨_, rfl, row⟩ := ModifiersRead.row reads
  obtain ⟨run, _⟩ := Passage.modifiersRead reads ⟨by simp, .nil⟩
  let written := table.list (table.collect modifiers)
  have perm : written.Perm modifiers := lawful modifiers run
  simp only [ModifierTable.isSimple, Bool.and_eq_true, decide_eq_true_eq, List.all_eq_true,
    List.contains_iff_mem] at simple
  obtain ⟨⟨fewSymbols, fewAttributes⟩, each⟩ := simple
  have plain : ∀ modifier ∈ modifiers,
      modifier.rule.argument.all (fun form => !(form.optional && form.angled)) = true :=
    fun modifier member => (each _ (run.fits modifier member).1).2
  have symbols := run.few fewSymbols
  have symbolsWritten : (written.filter (Modifier.takes .symbol)).Perm
      (modifiers.filter (Modifier.takes .symbol)) := perm.filter _
  have absent : ∀ mark ∈ [Punct.leftParen, .colon], startsWith mark beyond = false := by
    intro mark member
    rw [kindred.startsWith_eq, ← Stage.atPunct_eq]
    refine barred (.guard (.punct mark)) ?_
    rcases List.mem_pair.1 member with rfl | rfl <;> simp [Grammar.bars]
  have ends : ∀ stage : Stage, stage.rest = beyond →
      table.rules.find? (fun rule => stage.cursor.atWord rule.keyword) = none := by
    intro stage rest
    have none := barred .modifier (by simp [Grammar.bars])
    have face : face stage.cursor.rest = face after.cursor.rest := by
      rw [show stage.cursor.rest = beyond from rest]
      exact kindred.face
    have others := atWord_modifier_congr face fun word member =>
      Bool.eq_false_iff.2 (List.any_eq_false.1 none word member)
    exact List.find?_eq_none.2 fun rule member =>
      Bool.eq_false_iff.1 (others _ (each rule member).1)
  obtain ⟨recalls, unchanged⟩ : (∀ modifier ∈ modifiers,
      Recalls table.rules printed spelled before after modifier) ∧
      (modifiers.filter (Modifier.takes .symbol) = [] → before.Similar after) :=
    row.recalls clean plain within symbols
  constructor
  · obtain ⟨parts, rfl, all⟩ := parts_of_spelled
      (fun modifier member => (run.fits modifier (perm.mem_iff.1 member)).2) isSpelled
    obtain ⟨reordered, allRead, same⟩ := List.perm_comp_forall₂ perm.symm all
    have attributes := run.few fewAttributes
    have colon := absent .colon (by simp)
    exact kindred_modifiers row perm (fun rule member => (each rule member).1)
      (fun modifier member => (run.fits modifier member).1) isSpelled kindred
      ((row.scans clean plain within allRead kindred.scans).trans
        (scans_perm allRead all same attributes colon))
  · intro other rest similar
    obtain ⟨again, last, rowAgain, lastRest, same, none, some⟩ :=
      row_again (fun modifier member => recalls modifier (perm.mem_iff.1 member))
        (symbolsWritten.length_eq.trans_le symbols) isSpelled
        (absent .leftParen (by simp)) ends rest
        fun _ => similar
    have slots : again.map (fun modifier : Modifier => modifier.rule.slot) =
        written.map fun modifier => modifier.rule.slot := by
      have unplaced := congrArg (List.map fun modifier : Modifier => modifier.rule.slot) same
      rwa [List.map_map, List.map_map] at unplaced
    have distinct : (([] ++ again).map fun modifier : Modifier => modifier.rule.slot).Nodup := by
      rw [List.nil_append, slots]
      exact (perm.map _).nodup_iff.2 run.distinct
    refine ⟨_, last, ⟨again, rowAgain.modifiersRead distinct, rfl⟩, lastRest, ?_, again, rfl, same⟩
    cases given : written.filter (Modifier.takes .symbol) with
    | nil =>
      have stays := unchanged (given ▸ symbolsWritten).nil_eq.symm
      exact stays.symm.trans (similar.trans (none given))
    | cons modifier others => exact some (by rw [given]; exact List.cons_ne_nil _ _)

end Parser

/-! ## Grammars -/

namespace Grammar

variable {source : String} {printed : List Char} {region : RegionKind → Bool → Meaning R}
  {spelled : R → List Token → Prop} {f : R → X}

/-- Names and attributes start neither with a colon nor with an angle bracket. -/
theorem unmarked_of_isSingle {item : Grammar R α} (single : item.isSingle = true) {text : List Char}
    {before after : Stage} {a : α} (reads : item.Reads region text before a after) :
    Unmarked before.rest := by
  have ofKind : ∀ kind, before.cursor.peek.kind = kind → kind ≠ .punct .colon →
      kind ≠ .punct .less → Unmarked before.rest := by
    intro kind same noColon noLess
    constructor <;> rw [← Stage.atPunct_eq] <;>
      simpa [Cursor.atPunct, Token.isPunct, same]
  cases item with
  | name kind =>
    obtain ⟨found, isName, rest, _⟩ := reads
    refine ofKind (nameToken kind) ?_ ?_ ?_
    · rwa [Cursor.peek, show before.cursor.rest = found :: after.rest from rest]
    · cases kind <;> rintro ⟨⟩
    · cases kind <;> rintro ⟨⟩
  | attributeOf form =>
    obtain ⟨kind, member, same⟩ := starts_attributeOf reads
    refine ofKind kind same ?_ ?_ <;> rintro rfl <;> cases form <;> revert member <;> decide
  | _ => cases single

/-- Names and attributes are repeated. -/
theorem repeats_of_isSingle (clean : (tokenize source).errors = []) {item : Grammar R α}
    (single : item.isSingle = true) :
    Repeats source printed (item.Reads region)
      (fun a => Spelled printed spelled (item.pieces a)) (item.Same f) := by
  cases item with
  | name kind =>
    intro before after used tokens refers within isSpelled
    exact repeats_name kind refers within (Spelled.singleton_iff.1 isSpelled)
  | attributeOf form =>
    intro before after value tokens reads within isSpelled
    exact repeats_attributeOf clean form reads within (Spelled.singleton_iff.1 isSpelled)
  | _ => cases single

/-- Whether what is read by a grammar is read again from its printed tokens. -/
structure Recurring (source : String) (printed : List Char)
    (region : RegionKind → Bool → Meaning R) (spelled : R → List Token → Prop) (f : R → X)
    {α : Type} (grammar : Grammar R α) : Prop where
  again : Recurs source printed (grammar.Reads region)
    (fun a => Spelled printed spelled (grammar.pieces a)) (grammar.Same f) grammar.bars

namespace Recurring

/-! ### Tokens -/

theorem blank : (Grammar.blank (R := R)).Recurring source printed region spelled f := by
  constructor
  rintro before after a tokens beyond reads within isSpelled kindred barred
  obtain rfl := reads
  obtain rfl := Spelled.singleton_iff.1 isSpelled
  exact ⟨kindred, fun other rest similar => ⟨(), other, rfl, rest, similar, trivial⟩⟩

theorem token {grammar : Grammar R α} (accepts : Token → Prop) (value : Token → α)
    (means : ∀ {text before a after}, grammar.Reads region text before a after ↔
      ∃ found, (accepts found ∧ before.Passes found after) ∧ a = value found)
    (twins : ∀ {found tokens}, accepts found →
      Spelled printed spelled (grammar.pieces (value found)) tokens →
        ∃ twin, tokens = [twin] ∧ accepts twin ∧ twin.face = found.face ∧
          grammar.Same f (value found) (value twin)) :
    grammar.Recurring source printed region spelled f := by
  have repeats : Repeats source printed (grammar.Reads region)
      (fun a => Spelled printed spelled (grammar.pieces a)) (grammar.Same f) :=
    @Repeats.token _ _ _ _ _ _ accepts value means twins
  constructor
  intro before after a tokens beyond reads within isSpelled kindred _
  exact repeats.recurs reads within isSpelled kindred (List.forall_mem_nil _)

theorem punct (mark : Punct) :
    (Grammar.punct (R := R) mark).Recurring source printed region spelled f := by
  apply token (fun found => found.isPunct mark = true) (fun _ => ()) (by simp [Reads])
  intro found tokens isFound isSpelled
  obtain ⟨twin, rfl, kind, _⟩ := Spelled.singleton_iff.1 isSpelled
  have isTwin : twin.isPunct mark = true := beq_iff_eq.2 kind
  exact ⟨twin, rfl, isTwin, face_of_punct isFound isTwin, trivial⟩

theorem word (text : String) :
    (Grammar.word (R := R) text).Recurring source printed region spelled f := by
  apply token (fun found => found.isWord text = true) (fun _ => ()) (by simp [Reads])
  intro found tokens isFound isSpelled
  obtain ⟨twin, rfl, kind, same⟩ := Spelled.singleton_iff.1 isSpelled
  have isTwin : twin.isWord text = true :=
    Bool.and_eq_true_iff.2 ⟨beq_iff_eq.2 kind, beq_iff_eq.2 same⟩
  have content := content_of_words isFound isTwin
  exact ⟨twin, rfl, isTwin, face_of_content content.1 content.2, trivial⟩

theorem lexeme (kind : TokenKind) (what : String) :
    (Grammar.lexeme (R := R) kind what).Recurring source printed region spelled f := by
  apply token (fun found => found.kind = kind) (fun found => ⟨found.text, found.span⟩) .rfl
  intro found tokens isFound isSpelled
  obtain ⟨twin, rfl, isTwin, text⟩ := Spelled.singleton_iff.1 isSpelled
  exact ⟨twin, rfl, isTwin, face_of_content (isTwin.trans isFound.symm) text,
    congrArg (Lexeme.mk · .nowhere) text.symm⟩

theorem oneOf (words : List String) (what : String) :
    (Grammar.oneOf (R := R) words what).Recurring source printed region spelled f := by
  apply token (fun found => words.any found.isWord = true) (fun found => ⟨found.text, found.span⟩)
    .rfl
  intro found tokens isFound isSpelled
  obtain ⟨word, member, isWord⟩ := List.any_eq_true.1 isFound
  obtain ⟨twin, rfl, isTwin, text⟩ := Spelled.singleton_iff.1 isSpelled
  have content : twin.kind = found.kind :=
    isTwin.trans (beq_iff_eq.1 (Bool.and_eq_true_iff.1 isWord).1).symm
  refine ⟨twin, rfl, List.any_eq_true.2 ⟨word, member, ?_⟩, face_of_content content text,
    congrArg (Lexeme.mk · .nowhere) text.symm⟩
  rw [← isWord, Token.isWord, Token.isWord, content, text]

theorem name (kind : NameKind) :
    (Grammar.name (R := R) kind).Recurring source printed region spelled f := by
  constructor
  intro before after used tokens beyond refers within isSpelled kindred barred
  exact Repeats.recurs (repeats_name kind) refers within (Spelled.singleton_iff.1 isSpelled) kindred
    barred

theorem definition (kind : NameKind) :
    (Grammar.definition (R := R) kind).Recurring source printed region spelled f := by
  constructor
  rintro before after defined tokens beyond ⟨found, middle, ⟨isName, passes⟩, defines⟩ within
    isSpelled kindred barred
  obtain ⟨twin, rfl, twinKind, name⟩ := Spelled.singleton_iff.1 isSpelled
  obtain ⟨_, rfl, rfl⟩ := id defines
  have sameKind : twin.kind = nameToken kind := twinKind
  have noWord : found.kind ≠ .identifier := by
    rw [isName]
    cases kind <;> rintro ⟨⟩
  refine ⟨?_, fun other rest similar => ?_⟩
  · rw [passes.1]
    exact kindred.cons (face_of_kind (sameKind.trans isName.symm) noWord)
  · obtain ⟨passesTwin, next⟩ := Stage.passes_of_rest rest
    obtain ⟨b, last, again, lastRest, similar, same⟩ :=
      defines.again (passes.2 ▸ similar.next) name
    exact ⟨b, last, ⟨twin, other.next, ⟨sameKind, passesTwin⟩, again⟩, lastRest.trans next,
      similar, same⟩

/-! ### Types and attributes -/

section Sublanguages

variable (clean : (tokenize source).errors = [])
include clean

theorem type : (Grammar.type (R := R)).Recurring source printed region spelled f := by
  constructor
  intro before after written tokens beyond reads within isSpelled kindred barred
  exact Repeats.recurs (repeats_type clean) reads within (Spelled.singleton_iff.1 isSpelled) kindred
    barred

theorem attributeOf (form : AttributeForm) :
    (Grammar.attributeOf (R := R) form).Recurring source printed region spelled f := by
  constructor
  intro before after value tokens beyond reads within isSpelled kindred barred
  exact Repeats.recurs (repeats_attributeOf clean form) reads within
    (Spelled.singleton_iff.1 isSpelled) kindred barred

theorem namedAttribute :
    (Grammar.namedAttribute (R := R)).Recurring source printed region spelled f := by
  constructor
  intro before after value tokens beyond reads within isSpelled kindred barred
  exact Repeats.recurs (repeats_namedAttribute clean) reads within
    (Spelled.singleton_iff.1 isSpelled) kindred barred

theorem trailingAttribute :
    (Grammar.trailingAttribute (R := R)).Recurring source printed region spelled f := by
  constructor
  intro before after found tokens beyond reads within isSpelled kindred barred
  refine recurs_trailingAttribute clean reads within ?_ kindred barred
  cases found with
  | none => exact isSpelled
  | some value => exact Spelled.singleton_iff.1 (Spelled.blank_cons_iff.1 isSpelled)

end Sublanguages

/-! ### One after the other, or one of two -/

variable {β : Type}

theorem seq {first : Grammar R α} {second : Grammar R β}
    (braced : ∀ kind implicitTerminator {text : List Char} {before after : Stage} {a : R},
      region kind implicitTerminator text before a after →
        before.cursor.atPunct .leftBrace = true)
    (leads : ∀ {text before a after}, first.Reads region text before a after → before.Leads after)
    (foreseen : (Grammar.seq first second).foreseen = true)
    (firstRecurs : first.Recurring source printed region spelled f)
    (secondRecurs : second.Recurring source printed region spelled f) :
    (Grammar.seq first second).Recurring source printed region spelled f := by
  constructor
  rintro before after ⟨a, b⟩ _ beyond ⟨middle, readsFirst, readsSecond⟩ within isSpelled kindred
    barred
  obtain ⟨here, later, rfl, isFirst, isSecond⟩ := Spelled.append_iff.1 isSpelled
  obtain ⟨taken, toMiddle⟩ := leads readsFirst
  obtain ⟨behind, secondAgain⟩ := secondRecurs.again readsSecond
    (List.IsSuffix.trans ⟨taken, toMiddle.symm⟩ within) isSecond kindred
    fun bar member => barred bar (List.mem_append_left _ member)
  obtain ⟨ahead, firstAgain⟩ := firstRecurs.again readsFirst within isFirst behind
    (not_bars_first foreseen barred
      (starts_of_reads (fun kind implicitTerminator {_ _ _} => braced kind implicitTerminator)
        second readsSecond))
  rw [List.append_assoc]
  refine ⟨ahead, fun other rest similar => ?_⟩
  rw [List.append_assoc] at rest
  obtain ⟨a', middle', firstReads, middleRest, similar, sameFirst⟩ := firstAgain other rest similar
  obtain ⟨b', last, secondReads, lastRest, similar, sameSecond⟩ :=
    secondAgain middle' middleRest similar
  exact ⟨(a', b'), last, ⟨middle', firstReads, secondReads⟩, lastRest, similar, sameFirst,
    sameSecond⟩

theorem view {as : View α β} {inner : Grammar R α}
    (recurs : inner.Recurring source printed region spelled f) :
    (Grammar.view as inner).Recurring source printed region spelled f := by
  constructor
  rintro before after _ tokens beyond ⟨a, reads, rfl⟩ within isSpelled kindred barred
  rw [pieces_view] at isSpelled
  obtain ⟨ahead, again⟩ := recurs.again reads within isSpelled kindred barred
  refine ⟨ahead, fun other rest similar => ?_⟩
  obtain ⟨b, last, reads, lastRest, similar, same⟩ := again other rest similar
  exact ⟨as.build b, last, ⟨b, reads, rfl⟩, lastRest, similar, a, b, same, rfl, rfl⟩

theorem optional {present : Guard} {inner : Grammar R α} (plain : present.isPlain = true)
    (recurs : inner.Recurring source printed region spelled f) :
    (Grammar.optional present inner).Recurring source printed region spelled f := by
  constructor
  intro before after found tokens beyond reads within isSpelled kindred barred
  unfold Reads at reads
  split at reads
  · rename_i holds
    obtain ⟨a, reads, rfl⟩ := reads
    obtain ⟨ahead, again⟩ := recurs.again reads within isSpelled kindred barred
    refine ⟨ahead, fun other rest similar => ?_⟩
    obtain ⟨b, last, reads, lastRest, similar, same⟩ := again other rest similar
    refine ⟨some b, last, ?_, lastRest, similar, .some same⟩
    have goesOn : Kindred before.rest other.rest := rest ▸ ahead
    simp only [Reads, Guard.holds_congr present plain goesOn.face, if_pos holds]
    exact ⟨b, reads, rfl⟩
  · rename_i absent
    obtain ⟨rfl, rfl⟩ := reads
    obtain rfl : tokens = [] := isSpelled
    refine ⟨kindred, fun other rest similar => ⟨none, other, ?_, rest, similar, .none⟩⟩
    have goesOn : Kindred after.rest other.rest := rest ▸ kindred
    simp only [Reads, Guard.holds_congr present plain goesOn.face, if_neg absent, and_self]

theorem choice {isFirst : Guard} {first : Grammar R α} {second : Grammar R β}
    (plain : isFirst.isPlain = true) (firstRecurs : first.Recurring source printed region spelled f)
    (secondRecurs : second.Recurring source printed region spelled f) :
    (Grammar.choice isFirst first second).Recurring source printed region spelled f := by
  constructor
  intro before after either tokens beyond reads within isSpelled kindred barred
  unfold Reads at reads
  split at reads
  · rename_i holds
    obtain ⟨a, reads, rfl⟩ := reads
    obtain ⟨ahead, again⟩ := firstRecurs.again reads within isSpelled kindred
      fun bar member => barred bar (List.mem_append_left _ member)
    refine ⟨ahead, fun other rest similar => ?_⟩
    obtain ⟨b, last, reads, lastRest, similar, same⟩ := again other rest similar
    refine ⟨.inl b, last, ?_, lastRest, similar, .inl same⟩
    have goesOn : Kindred before.rest other.rest := rest ▸ ahead
    simp only [Reads, Guard.holds_congr isFirst plain goesOn.face, if_pos holds]
    exact ⟨b, reads, rfl⟩
  · rename_i absent
    obtain ⟨a, reads, rfl⟩ := reads
    obtain ⟨ahead, again⟩ := secondRecurs.again reads within isSpelled kindred
      fun bar member => barred bar (List.mem_append_right _ member)
    refine ⟨ahead, fun other rest similar => ?_⟩
    obtain ⟨b, last, reads, lastRest, similar, same⟩ := again other rest similar
    refine ⟨.inr b, last, ?_, lastRest, similar, .inr same⟩
    have goesOn : Kindred before.rest other.rest := rest ▸ ahead
    simp only [Reads, Guard.holds_congr isFirst plain goesOn.face, if_neg absent]
    exact ⟨b, reads, rfl⟩

/-! ### Lists -/

section Lists

variable {item : Grammar R α}

/-- Items that may be followed by anything are read again as parts of a list. -/
theorem unbarred (free : item.bars.isEmpty = true)
    (recurs : item.Recurring source printed region spelled f) :
    Recurs source printed (item.Reads region)
      (fun a => Spelled printed spelled (item.pieces a)) (item.Same f) [] := by
  rw [← List.isEmpty_iff.1 free]
  exact recurs.again

variable
  (leads : ∀ {text before a after}, item.Reads region text before a after → before.Leads after)
include leads

theorem separated (free : item.bars.isEmpty = true)
    (recurs : item.Recurring source printed region spelled f) :
    (Grammar.separated item).Recurring source printed region spelled f := by
  constructor
  intro before after found tokens beyond reads within isSpelled kindred barred
  exact recurs_separated leads (recurs.unbarred free) reads within (Spelled.commaed isSpelled)
    kindred (List.forall_mem_nil _)

theorem listed (free : item.bars.isEmpty = true)
    (recurs : item.Recurring source printed region spelled f) :
    (Grammar.listed item).Recurring source printed region spelled f := by
  constructor
  intro before after items tokens beyond reads within isSpelled kindred barred
  exact recurs_listed leads (recurs.unbarred free) reads within (Spelled.commaed isSpelled) kindred
    (List.forall_mem_nil _)

theorem listedWithEllipsis (free : item.bars.isEmpty = true)
    (recurs : item.Recurring source printed region spelled f) :
    (Grammar.listedWithEllipsis item).Recurring source printed region spelled f := by
  constructor
  rintro before after ⟨items, ellipsis⟩ tokens beyond reads within isSpelled kindred barred
  exact recurs_listedWithEllipsis leads (recurs.unbarred free) reads within
    (Spelled.commaed_withEllipsis isSpelled) kindred (List.forall_mem_nil _)

theorem row (free : item.bars.isEmpty = true)
    (recurs : item.Recurring source printed region spelled f) :
    Recurs source printed (BracketedReads .blank (item.Reads region))
      (fun items => Spelled printed spelled
        (Piece.arrange .blank (items.map item.pieces) ++ [.punct .rightBracket]))
      (List.Forall₂ (item.Same f)) [] := by
  intro before after items tokens beyond reads within isSpelled kindred barred
  obtain ⟨inner, _, rfl, isItems, isLast⟩ := Spelled.append_iff.1 isSpelled
  obtain ⟨closing, _, rfl, isClosing, rfl⟩ := Spelled.punct_cons isLast
  exact recurs_row leads (recurs.unbarred free) reads within
    ⟨_, closing, rfl, Spelled.row isItems, isClosing⟩ kindred barred

variable (clean : (tokenize source).errors = []) (single : item.isSingle = true)
  (progresses : ∀ {text before a after}, item.Reads region text before a after →
    after.rest.length < before.rest.length)
include clean single progresses

theorem commas :
    Recurs source printed (BracketedReads .comma (item.Reads region))
      (fun items => Spelled printed spelled
        (Piece.arrange .comma (items.map item.pieces) ++ [.punct .rightBracket]))
      (List.Forall₂ (item.Same f)) [] := by
  intro before after items tokens beyond reads within isSpelled kindred barred
  obtain ⟨inner, _, rfl, isItems, isLast⟩ := Spelled.append_iff.1 isSpelled
  obtain ⟨closing, _, rfl, isClosing, rfl⟩ := Spelled.punct_cons isLast
  exact recurs_commas (repeats_of_isSingle clean single) progresses (unmarked_of_isSingle single)
    leads reads within ⟨_, closing, rfl, Spelled.commaed isItems, isClosing⟩ kindred barred

theorem repeated {next : Guard} (plain : next.isPlain = true) :
    (Grammar.repeated next item).Recurring source printed region spelled f := by
  constructor
  intro before after items tokens beyond reads within isSpelled kindred barred
  exact recurs_repeated (repeats_of_isSingle clean single) progresses (unmarked_of_isSingle single)
    leads plain reads within (Spelled.commaed isSpelled) kindred barred

end Lists

/-- A list in brackets is read again if what is inside the brackets is. -/
theorem bracketed {separator : Separator} {item : Grammar R α}
    (items : Recurs source printed (BracketedReads separator (item.Reads region))
      (fun items => Spelled printed spelled
        (Piece.arrange separator (items.map item.pieces) ++ [.punct .rightBracket]))
      (List.Forall₂ (item.Same f)) []) :
    (Grammar.bracketed separator item).Recurring source printed region spelled f := by
  constructor
  rintro before after found tokens beyond ⟨opening, middle, ⟨isOpening, passes⟩, reads⟩ within
    isSpelled kindred _
  obtain ⟨twin, later, rfl, isTwin, isSpelled⟩ := Spelled.punct_cons isSpelled
  obtain ⟨ahead, again⟩ := items reads (List.IsSuffix.trans ⟨[opening], passes.1.symm⟩ within)
    isSpelled kindred (List.forall_mem_nil _)
  refine ⟨?_, fun other rest similar => ?_⟩
  · rw [passes.1]
    exact kindred_punct isOpening isTwin ahead.scans
  · obtain ⟨passesTwin, next⟩ := Stage.passes_of_rest rest
    obtain ⟨b, last, reads, more⟩ := again other.next next (passes.2 ▸ similar.next)
    exact ⟨b, last, ⟨twin, other.next, ⟨isTwin, passesTwin⟩, reads⟩, more⟩

/-! ### Spans, names and scopes -/

theorem spanned {inner : Grammar R α}
    (recurs : inner.Recurring source printed region spelled f) :
    (Grammar.spanned inner).Recurring source printed region spelled f := by
  constructor
  rintro before after ⟨a, span⟩ tokens beyond ⟨reads, _⟩ within isSpelled kindred barred
  obtain ⟨ahead, again⟩ := recurs.again reads within isSpelled kindred barred
  refine ⟨ahead, fun other rest similar => ?_⟩
  obtain ⟨b, last, reads, more⟩ := again other rest similar
  exact ⟨(b, other.cursor.spanBetween last.cursor), last, ⟨reads, rfl⟩, more⟩

theorem binder {what : String} {inner : Grammar R α}
    (recurs : inner.Recurring source printed region spelled f) :
    (Grammar.binder what inner).Recurring source printed region spelled f := by
  constructor
  rintro before after ⟨defined, a⟩ tokens beyond ⟨found, middle, last, ⟨isValue, passes⟩, reads,
    defines⟩ within isSpelled kindred barred
  obtain ⟨_, later, rfl, ⟨twin, rfl, twinKind, name⟩, isSpelled⟩ := isSpelled
  obtain ⟨_, rfl, rfl⟩ := id defines
  obtain ⟨ahead, again⟩ := recurs.again reads
    (List.IsSuffix.trans ⟨[found], passes.1.symm⟩ within) isSpelled kindred barred
  have sameKind : twin.kind = .value := twinKind
  have noWord : found.kind ≠ .identifier := by
    rw [isValue]
    rintro ⟨⟩
  refine ⟨?_, fun other rest similar => ?_⟩
  · rw [passes.1]
    exact ahead.cons (face_of_kind (sameKind.trans isValue.symm) noWord)
  · obtain ⟨passesTwin, next⟩ := Stage.passes_of_rest rest
    obtain ⟨b, final, reads, finalRest, similar, same⟩ :=
      again other.next next (passes.2 ▸ similar.next)
    obtain ⟨twinDefined, ending, definesAgain, endingRest, similar, sameName⟩ :=
      defines.again similar name
    exact ⟨(twinDefined, b), ending, ⟨twin, other.next, final, ⟨sameKind, passesTwin⟩, reads,
      definesAgain⟩, endingRest.trans finalRest, similar, sameName, same⟩

theorem inScope {inner : Grammar R α}
    (recurs : inner.Recurring source printed region spelled f) :
    (Grammar.inScope inner).Recurring source printed region spelled f := by
  constructor
  rintro before _ a tokens beyond ⟨inside, reads, resolved, rfl⟩ within isSpelled kindred barred
  obtain ⟨ahead, again⟩ := recurs.again reads within isSpelled kindred barred
  refine ⟨ahead, fun other rest similar => ?_⟩
  obtain ⟨b, last, reads, lastRest, similar, same⟩ :=
    again { other with tracker := other.tracker.push } rest similar.push
  exact ⟨b, _, ⟨last, reads, similar.resolved resolved, rfl⟩, lastRest, similar.pop, same⟩

end Recurring

/-- What is read by a grammar is read again from its printed tokens. -/
theorem recurring (clean : (tokenize source).errors = [])
    {parser : RegionKind → Bool → Parser R}
    (means : ∀ kind implicitTerminator,
      Means (parser kind implicitTerminator) (region kind implicitTerminator))
    (braced : ∀ kind implicitTerminator {text : List Char} {before after : Stage} {a : R},
      region kind implicitTerminator text before a after →
        before.cursor.atPunct .leftBrace = true)
    (regions : ∀ kind implicitTerminator, Recurs source printed (region kind implicitTerminator)
      spelled (fun a b => f a = f b) [])
    {α : Type} (grammar : Grammar R α) (lawful : grammar.Lawful) (steady : grammar.steady = true)
    (foreseen : grammar.foreseen = true) :
    grammar.Recurring source printed region spelled f := by
  have leads : ∀ {α : Type} (grammar : Grammar R α), grammar.steady = true →
      ∀ {text before a after}, grammar.Reads region text before a after → before.Leads after :=
    fun {_} grammar steady {_ _ _ _} reads =>
      (parse_means ⟨[], 0, none, 0⟩ means grammar steady).1.leads _ _ _ _ reads
  have progresses : ∀ {α : Type} (grammar : Grammar R α), grammar.steady = true →
      grammar.consumes = true → ∀ {text before a after}, grammar.Reads region text before a after →
        after.rest.length < before.rest.length :=
    fun {_} grammar steady consumes {_ _ _ _} reads =>
      (parse_means ⟨[], 0, none, 0⟩ means grammar steady).2 consumes _ _ _ _ reads
  induction grammar with
  | blank => exact .blank
  | punct mark => exact .punct mark
  | word text => exact .word text
  | lexeme kind what => exact .lexeme kind what
  | oneOf words what => exact .oneOf words what
  | name kind => exact .name kind
  | definition kind => exact .definition kind
  | type => exact .type clean
  | attributeOf form => exact .attributeOf clean form
  | namedAttribute => exact .namedAttribute clean
  | trailingAttribute => exact .trailingAttribute clean
  | seq first second ihFirst ihSecond =>
    obtain ⟨steadyFirst, steadySecond⟩ := Bool.and_eq_true_iff.1 steady
    obtain ⟨both, _⟩ := Bool.and_eq_true_iff.1 foreseen
    obtain ⟨foreseenFirst, foreseenSecond⟩ := Bool.and_eq_true_iff.1 both
    exact .seq (fun kind implicitTerminator {_ _ _ _} => braced kind implicitTerminator)
      (leads first steadyFirst) foreseen (ihFirst lawful.1 steadyFirst foreseenFirst)
      (ihSecond lawful.2 steadySecond foreseenSecond)
  | view as inner ih => exact .view (ih lawful steady foreseen)
  | optional present inner ih =>
    obtain ⟨plain, foreseen⟩ := Bool.and_eq_true_iff.1 foreseen
    exact .optional plain (ih lawful steady foreseen)
  | choice isFirst first second ihFirst ihSecond =>
    obtain ⟨steadyFirst, steadySecond⟩ := Bool.and_eq_true_iff.1 steady
    obtain ⟨both, foreseenSecond⟩ := Bool.and_eq_true_iff.1 foreseen
    obtain ⟨plain, foreseenFirst⟩ := Bool.and_eq_true_iff.1 both
    exact .choice plain (ihFirst lawful.1 steadyFirst foreseenFirst)
      (ihSecond lawful.2 steadySecond foreseenSecond)
  | separated item ih =>
    obtain ⟨foreseen, free⟩ := Bool.and_eq_true_iff.1 foreseen
    exact .separated (leads item steady) free (ih lawful steady foreseen)
  | listed item ih =>
    obtain ⟨foreseen, free⟩ := Bool.and_eq_true_iff.1 foreseen
    exact .listed (leads item steady) free (ih lawful steady foreseen)
  | listedWithEllipsis item ih =>
    obtain ⟨foreseen, free⟩ := Bool.and_eq_true_iff.1 foreseen
    exact .listedWithEllipsis (leads item steady) free (ih lawful steady foreseen)
  | bracketed separator item ih =>
    obtain ⟨consumes, steadyItem⟩ := Bool.and_eq_true_iff.1 steady
    apply Recurring.bracketed
    cases separator with
    | comma =>
      exact Recurring.commas (leads item steadyItem) clean foreseen
        (progresses item steadyItem consumes)
    | blank =>
      obtain ⟨foreseen, free⟩ := Bool.and_eq_true_iff.1 foreseen
      exact Recurring.row (leads item steadyItem) free (ih lawful steadyItem foreseen)
  | repeated next item ih =>
    obtain ⟨plain, single⟩ := Bool.and_eq_true_iff.1 foreseen
    obtain ⟨consumes, steady⟩ := Bool.and_eq_true_iff.1 steady
    exact .repeated (leads item steady) clean single (progresses item steady consumes) plain
  | modifierRun table => exact ⟨recurs_modifierRun clean lawful foreseen f⟩
  | spanned inner ih => exact .spanned (ih lawful steady foreseen)
  | binder what inner ih => exact .binder (ih lawful steady foreseen)
  | inScope inner ih => exact .inScope (ih lawful steady foreseen)
  | region kind implicitTerminator =>
    constructor
    intro before after inner tokens beyond reads within isSpelled kindred barred
    exact regions kind implicitTerminator reads within (Spelled.singleton_iff.1 isSpelled) kindred
      barred
  | recommended opcode warning inner ih => exact ⟨(ih lawful steady foreseen).again⟩

end Grammar

end CirText
