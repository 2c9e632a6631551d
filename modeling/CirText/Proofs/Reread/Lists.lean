import CirText.Proofs.Reread.Recurs

/-!
# Reading lists again

The items of a list are read again if every item is. Where commas may be left out, as between the
items of an array, something else may come behind an item when it is read again; so such items have
to be names or attributes, which hardly depend on what comes behind them.
-/

namespace CirText

open CirText.Parser CirText.Reader

variable {α R : Type}

/-! ## Tokens of lists -/

namespace Spelled

/-- Whether tokens stand for items with commas between them. -/
def Commaed (item : α → List Token → Prop) : List α → List Token → Prop
  | [], tokens => tokens = []
  | a :: rest, tokens => ∃ here later, tokens = here ++ later ∧ item a here ∧ Tail item rest later

/-- Whether tokens stand for items with nothing between them. -/
def Row (item : α → List Token → Prop) : List α → List Token → Prop
  | [], tokens => tokens = []
  | a :: rest, tokens => ∃ here later, tokens = here ++ later ∧ item a here ∧ Row item rest later

/-- Whether tokens stand for an item, or for an ellipsis if there is none. -/
def OrEllipsis (item : α → List Token → Prop) : Option α → List Token → Prop
  | some a, tokens => item a tokens
  | none, tokens => ∃ token, tokens = [token] ∧ token.isPunct .ellipsis = true

/-- Items, and nothing for an ellipsis behind them. -/
def withEllipsis (found : List α × Bool) : List (Option α) :=
  found.1.map some ++ if found.2 then [none] else []

/-- Whether tokens stand for what a closing mark comes behind, and for that mark. -/
def Closed (mark : Punct) (inner : List Token → Prop) (tokens : List Token) : Prop :=
  ∃ inside closing, tokens = inside ++ [closing] ∧ inner inside ∧ closing.isPunct mark = true

variable {printed : List Char} {region : R → List Token → Prop} {pieces : α → List (Piece R)}
  {items : List α} {tokens : List Token}

theorem commaed (spelled : Spelled printed region (Piece.commaed (items.map pieces)) tokens) :
    Commaed (fun a => Spelled printed region (pieces a)) items tokens := by
  cases items with
  | nil => exact spelled
  | cons a items => exact of_commaed_cons spelled

/-- What stands for items stands for others that go with them. -/
theorem Commaed.carry {β : Type} {rel : β → α → Prop} {item : α → List Token → Prop}
    {other : β → List Token → Prop} {others : List β} (spelled : Commaed item items tokens)
    (all : List.Forall₂ rel others items)
    (each : ∀ b a tokens, rel b a → item a tokens → other b tokens) :
    Commaed other others tokens := by
  have later : ∀ {items tokens others}, Tail item items tokens → List.Forall₂ rel others items →
      Tail other others tokens := by
    intro items tokens others tail all
    induction tail generalizing others with
    | nil =>
      cases all
      exact .nil
    | cons isComma first _ ih =>
      cases all with
      | cons here more => exact .cons isComma (each _ _ _ here first) (ih more)
  cases all with
  | nil => exact spelled
  | cons here more =>
    obtain ⟨tokens, rest, rfl, first, tail⟩ := spelled
    exact ⟨tokens, rest, rfl, each _ _ _ here first, later tail more⟩

/-- Items with an ellipsis behind them. -/
theorem commaed_withEllipsis {found : List α × Bool}
    (spelled : Spelled printed region (Piece.commaed (found.1.map pieces ++
      if found.2 then [[.punct .ellipsis]] else [])) tokens) :
    Commaed (OrEllipsis fun a => Spelled printed region (pieces a))
      (withEllipsis found) tokens := by
  let orEllipsis : Option α → List (Piece R) :=
    fun item => (item.map pieces).getD [.punct .ellipsis]
  have same : found.1.map pieces ++ (if found.2 then [[.punct .ellipsis]] else []) =
      (withEllipsis found).map orEllipsis := by
    rw [withEllipsis, List.map_append, List.map_map]
    cases found.2 <;> rfl
  rw [same] at spelled
  apply (commaed spelled).carry (List.forall₂_same.2 fun _ _ => rfl)
  rintro (_ | a) _ tokens rfl isSpelled
  · obtain ⟨token, rfl, kind, _⟩ := singleton_iff.1 isSpelled
    exact ⟨token, rfl, beq_iff_eq.2 kind⟩
  · exact isSpelled

theorem row (spelled : Spelled printed region (Piece.arrange .blank (items.map pieces)) tokens) :
    Row (fun a => Spelled printed region (pieces a)) items tokens := by
  induction items generalizing tokens with
  | nil => exact spelled
  | cons a items ih =>
    cases items with
    | nil =>
      rw [List.map_singleton, Piece.arrange, List.intercalate_singleton] at spelled
      exact ⟨tokens, [], (List.append_nil _).symm, spelled, rfl⟩
    | cons next items =>
      rw [List.map_cons, List.map_cons, Piece.arrange, List.intercalate_cons_cons] at spelled
      obtain ⟨here, later, rfl, first, rest⟩ := append_iff.1 (List.append_assoc .. ▸ spelled)
      exact ⟨here, later, rfl, first, ih (blank_cons_iff.1 rest)⟩

/-- The tokens of another item start with a comma. -/
theorem Tail.of_ne_nil {item : α → List Token → Prop} (tail : Tail item items tokens)
    (more : items ≠ []) :
    ∃ comma others, tokens = comma :: others ∧ comma.isPunct .comma = true ∧
      Commaed item items others := by
  cases tail with
  | nil => exact absurd rfl more
  | cons isComma first rest => exact ⟨_, _, rfl, isComma, _, _, rfl, first, rest⟩

end Spelled

namespace Parser

variable {source : String} {printed : List Char} {item : Meaning α}
  {spelled : α → List Token → Prop} {same : α → α → Prop} {bars : List Bar}

theorem Stage.passes_of_atPunct {stage : Stage} {mark : Punct}
    (here : stage.cursor.atPunct mark = true) :
    ∃ token, token.isPunct mark = true ∧ stage.Passes token stage.next :=
  ⟨_, (Stage.passes_iff (·.isPunct mark) fun _ => rfl).1 ⟨here, rfl, rfl⟩⟩

theorem Stage.atPunct_congr {stage other : Stage} (kindred : Kindred stage.rest other.rest)
    (mark : Punct) : other.cursor.atPunct mark = stage.cursor.atPunct mark :=
  Guard.holds_congr (.punct mark) rfl kindred.face

theorem Stage.atPunct_eq (stage : Stage) (mark : Punct) :
    stage.cursor.atPunct mark = startsWith mark stage.rest := by
  rw [Cursor.atPunct, Cursor.peek, Stage.rest]
  cases stage.cursor.rest <;> rfl

/-- What is still to be read where there is a mark, and where it comes again. -/
theorem kindred_punct {mark : Punct} {token twin : Token} {tokens others : List Token}
    (isMark : token.isPunct mark = true) (isTwin : twin.isPunct mark = true)
    (scans : Scans tokens others) : Kindred (token :: tokens) (twin :: others) := by
  have kind : token.kind = .punct mark := beq_iff_eq.1 isMark
  have twinKind : twin.kind = .punct mark := beq_iff_eq.1 isTwin
  refine .of_scans (face_of_kind (twinKind.trans kind.symm) ?_) scans
  rw [kind]
  rintro ⟨⟩

/-! ## Items between commas -/

section

variable (leads : ∀ {source before a after}, item source before a after → before.Leads after)
  (each : Recurs source printed item spelled same [])

include leads each

/-- Items each of which comes after a comma. -/
theorem recurs_tail : Recurs source printed (TailReads item) (Spelled.Tail spelled)
    (List.Forall₂ same) [] := by
  intro before after items tokens beyond reads within isSpelled kindred barred
  induction reads generalizing tokens with
  | @nil stage ends =>
    cases isSpelled
    refine ⟨kindred, fun other rest similar => ⟨[], other, .nil ?_, rest, similar, .nil⟩⟩
    have goesOn : Kindred stage.rest other.rest := rest ▸ kindred
    rw [Stage.atPunct_congr goesOn, ends]
  | @cons before middle after a items comma first rest ih =>
    cases isSpelled with
    | @cons _ _ twin here later isComma isFirst isRest =>
      obtain ⟨token, isToken, passes⟩ := Stage.passes_of_atPunct comma
      have inside : before.next.rest <:+ (tokenize source).tokens :=
        List.IsSuffix.trans ⟨[token], passes.1.symm⟩ within
      obtain ⟨taken, toMiddle⟩ := leads first
      obtain ⟨behind, restAgain⟩ := ih (List.IsSuffix.trans ⟨taken, toMiddle.symm⟩ inside) isRest
        kindred barred
      obtain ⟨ahead, firstAgain⟩ := each first inside isFirst behind (List.forall_mem_nil _)
      rw [List.cons_append, List.append_assoc]
      refine ⟨?_, fun other tokensRest similar => ?_⟩
      · rw [passes.1]
        exact kindred_punct isToken isComma ahead.scans
      · rw [List.cons_append, List.append_assoc] at tokensRest
        have next := (Stage.passes_of_rest tokensRest).2
        obtain ⟨b, middle', reads, middleRest, similar, sameFirst⟩ :=
          firstAgain other.next next similar.next
        obtain ⟨others, last, readsRest, lastRest, similar, sameRest⟩ :=
          restAgain middle' middleRest similar
        refine ⟨b :: others, last, .cons ?_ reads readsRest, lastRest, similar,
          .cons sameFirst sameRest⟩
        rw [Stage.atPunct_of_rest tokensRest, isComma]

/-- At least one item, separated by commas. -/
theorem recurs_separated : Recurs source printed (SeparatedReads item)
    (fun found => Spelled.Commaed spelled (found.1 :: found.2))
    (fun found again => same found.1 again.1 ∧ List.Forall₂ same found.2 again.2) [] := by
  rintro before after found _ beyond ⟨middle, first, rest⟩ within
    ⟨here, later, rfl, isFirst, isRest⟩ kindred barred
  obtain ⟨taken, toMiddle⟩ := leads first
  obtain ⟨behind, restAgain⟩ := recurs_tail leads each rest
    (List.IsSuffix.trans ⟨taken, toMiddle.symm⟩ within) isRest kindred barred
  obtain ⟨ahead, firstAgain⟩ := each first within isFirst behind (List.forall_mem_nil _)
  rw [List.append_assoc]
  refine ⟨ahead, fun other tokensRest similar => ?_⟩
  rw [List.append_assoc] at tokensRest
  obtain ⟨b, middle', reads, middleRest, similar, sameFirst⟩ := firstAgain other tokensRest similar
  obtain ⟨others, last, readsRest, lastRest, similar, sameRest⟩ :=
    restAgain middle' middleRest similar
  exact ⟨(b, others), last, ⟨middle', reads, readsRest⟩, lastRest, similar, sameFirst, sameRest⟩

/-- Items separated by commas before a closing parenthesis. -/
theorem recurs_listed : Recurs source printed (ListedReads item) (Spelled.Commaed spelled)
    (List.Forall₂ same) [] := by
  intro before after items tokens beyond reads within isSpelled kindred barred
  cases reads with
  | nil ends =>
    obtain rfl : tokens = [] := isSpelled
    refine ⟨kindred, fun other rest similar => ⟨[], other, .nil ?_, rest, similar, .nil⟩⟩
    have goesOn : Kindred before.rest other.rest := rest ▸ kindred
    rw [Stage.atPunct_congr goesOn, ends]
  | @cons _ a items inside all =>
    obtain ⟨ahead, allAgain⟩ := recurs_separated leads each all within isSpelled kindred barred
    refine ⟨ahead, fun other rest similar => ?_⟩
    obtain ⟨found, last, reads, lastRest, similar, sameFirst, sameRest⟩ :=
      allAgain other rest similar
    refine ⟨found.1 :: found.2, last, .cons ?_ reads, lastRest, similar, .cons sameFirst sameRest⟩
    have goesOn : Kindred before.rest other.rest := rest ▸ ahead
    rw [Stage.atPunct_congr goesOn, inside]

omit leads each in
theorem withEllipsis_ne_nil {source : List Char} {before after : Stage} {found : List α × Bool}
    (reads : EllipsisReads item source before found after) : Spelled.withEllipsis found ≠ [] := by
  cases reads <;> simp [Spelled.withEllipsis]

/-- Items with an ellipsis behind them. -/
theorem recurs_ellipsis : Recurs source printed (EllipsisReads item)
    (fun found => Spelled.Commaed (Spelled.OrEllipsis spelled) (Spelled.withEllipsis found))
    (fun found again => List.Forall₂ same found.1 again.1 ∧ found.2 = again.2) [] := by
  intro before after found tokens beyond reads within isSpelled kindred barred
  induction reads generalizing tokens with
  | @ellipsis stage here =>
    obtain ⟨_, _, rfl, ⟨twin, rfl, isTwin⟩, ⟨⟩⟩ := isSpelled
    obtain ⟨token, isToken, passes⟩ := Stage.passes_of_atPunct here
    refine ⟨?_, fun other rest similar => ?_⟩
    · rw [passes.1]
      exact kindred_punct isToken isTwin kindred.scans
    · refine ⟨([], true), other.next, .ellipsis ?_, (Stage.passes_of_rest rest).2, similar.next,
        .nil, rfl⟩
      rw [Stage.atPunct_of_rest rest, isTwin]
  | @last before after a absent only ends =>
    obtain ⟨here, _, rfl, isFirst, ⟨⟩⟩ := isSpelled
    rw [List.append_nil]
    obtain ⟨ahead, again⟩ := each only within isFirst kindred (List.forall_mem_nil _)
    refine ⟨ahead, fun other rest similar => ?_⟩
    obtain ⟨b, last, reads, lastRest, similar, same⟩ := again other rest similar
    refine ⟨([b], false), last, .last ?_ reads ?_, lastRest, similar, .cons same .nil, rfl⟩
    · have goesOn : Kindred before.rest other.rest := rest ▸ ahead
      rw [Stage.atPunct_congr goesOn, absent]
    · have goesOn : Kindred after.rest last.rest := lastRest ▸ kindred
      rw [Stage.atPunct_congr goesOn, ends]
  | @more before middle after a items ellipsis absent first comma rest ih =>
    obtain ⟨here, later, rfl, isFirst, isRest⟩ := isSpelled
    change Spelled.Tail (Spelled.OrEllipsis spelled) (Spelled.withEllipsis (items, ellipsis)) later
      at isRest
    obtain ⟨twin, others, rfl, isTwin, isRest⟩ := isRest.of_ne_nil (withEllipsis_ne_nil rest)
    obtain ⟨token, isToken, passes⟩ := Stage.passes_of_atPunct comma
    obtain ⟨taken, toMiddle⟩ := leads first
    have inside : middle.next.rest <:+ (tokenize source).tokens :=
      List.IsSuffix.trans ⟨taken ++ [token], by rw [toMiddle, passes.1]; simp⟩ within
    obtain ⟨behind, restAgain⟩ := ih inside isRest kindred barred
    have onward : Kindred middle.rest (twin :: others ++ beyond) := by
      rw [passes.1]
      exact kindred_punct isToken isTwin behind.scans
    obtain ⟨ahead, firstAgain⟩ := each first within isFirst onward (List.forall_mem_nil _)
    rw [List.append_assoc]
    refine ⟨ahead, fun other tokensRest similar => ?_⟩
    rw [List.append_assoc] at tokensRest
    obtain ⟨b, middle', reads, middleRest, similar, sameFirst⟩ :=
      firstAgain other tokensRest similar
    obtain ⟨found, last, readsRest, lastRest, similar, sameRest⟩ :=
      restAgain middle'.next (Stage.passes_of_rest middleRest).2 similar.next
    refine ⟨(b :: found.1, found.2), last, .more ?_ reads ?_ readsRest, lastRest, similar,
      .cons sameFirst sameRest.1, sameRest.2⟩
    · have goesOn : Kindred before.rest other.rest := tokensRest ▸ ahead
      rw [Stage.atPunct_congr goesOn, absent]
    · have goesOn : Kindred middle.rest middle'.rest := middleRest ▸ onward
      rw [Stage.atPunct_congr goesOn, comma]

/-- Items before a closing parenthesis, perhaps with an ellipsis behind them. -/
theorem recurs_listedWithEllipsis : Recurs source printed (ListedWithEllipsisReads item)
    (fun found => Spelled.Commaed (Spelled.OrEllipsis spelled) (Spelled.withEllipsis found))
    (fun found again => List.Forall₂ same found.1 again.1 ∧ found.2 = again.2) [] := by
  intro before after found tokens beyond reads within isSpelled kindred barred
  unfold ListedWithEllipsisReads at reads
  split at reads
  · rename_i closes
    obtain ⟨rfl, rfl⟩ := reads
    obtain rfl : tokens = [] := isSpelled
    refine ⟨kindred, fun other rest similar =>
      ⟨([], false), other, ?_, rest, similar, .nil, rfl⟩⟩
    have goesOn : Kindred after.rest other.rest := rest ▸ kindred
    rw [ListedWithEllipsisReads, Stage.atPunct_congr goesOn, if_pos closes]
    exact ⟨rfl, rfl⟩
  · rename_i inside
    obtain ⟨ahead, again⟩ := recurs_ellipsis leads each reads within isSpelled kindred barred
    refine ⟨ahead, fun other rest similar => ?_⟩
    obtain ⟨found, last, reads, more⟩ := again other rest similar
    refine ⟨found, last, ?_, more⟩
    have goesOn : Kindred before.rest other.rest := rest ▸ ahead
    rw [ListedWithEllipsisReads, Stage.atPunct_congr goesOn, if_neg inside]
    exact reads

/-- Items with nothing between them up to a closing bracket. -/
theorem recurs_row : Recurs source printed (BracketedReads .blank item)
    (fun items => Spelled.Closed .rightBracket (Spelled.Row spelled items))
    (List.Forall₂ same) [] := by
  rintro before after items _ beyond reads within ⟨inside, closing, rfl, isSpelled,
    isClosing⟩ kindred barred
  induction reads generalizing inside with
  | @nil stage ends =>
    obtain rfl : inside = [] := isSpelled
    obtain ⟨token, isToken, passes⟩ := Stage.passes_of_atPunct ends
    refine ⟨?_, fun other rest similar => ?_⟩
    · rw [passes.1]
      exact kindred_punct isToken isClosing kindred.scans
    · refine ⟨[], other.next, .nil ?_, (Stage.passes_of_rest rest).2, similar.next, .nil⟩
      rw [Stage.atPunct_of_rest rest, isClosing]
  | @cons before middle after a items goesOn more first rest ih =>
    obtain ⟨here, later, rfl, isFirst, isRest⟩ := isSpelled
    obtain ⟨taken, toMiddle⟩ := leads first
    obtain ⟨behind, restAgain⟩ :=
      ih (List.IsSuffix.trans ⟨taken, toMiddle.symm⟩ within) later isRest
      kindred barred
    obtain ⟨ahead, firstAgain⟩ := each first within isFirst behind (List.forall_mem_nil _)
    simp only [List.append_assoc] at ahead firstAgain restAgain ⊢
    refine ⟨ahead, fun other tokensRest similar => ?_⟩
    simp only [List.append_assoc] at tokensRest
    obtain ⟨b, middle', reads, middleRest, similar, sameFirst⟩ :=
      firstAgain other tokensRest similar
    obtain ⟨others, last, readsRest, lastRest, similar, sameRest⟩ :=
      restAgain middle' (by rw [middleRest, List.append_assoc]) similar
    refine ⟨b :: others, last, .cons ?_ ?_ reads readsRest, lastRest, similar,
      .cons sameFirst sameRest⟩
    · have onward : Kindred before.rest other.rest := tokensRest ▸ ahead
      rw [Stage.atPunct_congr onward, goesOn]
    · rw [Stage.atEnd_eq, tokensRest, List.isEmpty_eq_false_iff]
      simp

end

/-! ## Items between which a comma may be left out -/

/-- Whether tokens start neither with a colon nor with an angle bracket. -/
structure Unmarked (tokens : List Token) : Prop where
  colon : startsWith .colon tokens = false
  less : startsWith .less tokens = false

theorem Unmarked.of_punct {mark : Punct} {token : Token} {tokens : List Token}
    (isMark : token.isPunct mark = true) (noColon : mark ≠ .colon) (noLess : mark ≠ .less) :
    Unmarked (token :: tokens) := by
  have kind : token.kind = .punct mark := beq_iff_eq.1 isMark
  constructor <;> simpa [startsWith, Token.isPunct, kind]

theorem Unmarked.sameMark {tokens others : List Token} (left : Unmarked tokens)
    (right : Unmarked others) : SameMark tokens others :=
  ⟨right.less.trans left.less.symm, right.colon.trans left.colon.symm⟩

theorem Unmarked.of_kindred {tokens others : List Token} (unmarked : Unmarked tokens)
    (kindred : Kindred tokens others) : Unmarked others :=
  ⟨(kindred.startsWith_eq .colon).trans unmarked.colon,
    (kindred.startsWith_eq .less).trans unmarked.less⟩

theorem Stage.rest_pastComma (stage : Stage) :
    stage.rest = stage.pastComma.rest ∨
      ∃ comma, comma.isPunct .comma = true ∧ stage.rest = comma :: stage.pastComma.rest := by
  unfold Stage.pastComma
  split
  · rename_i here
    obtain ⟨comma, isComma, passes⟩ := Stage.passes_of_atPunct here
    exact .inr ⟨comma, isComma, passes.1⟩
  · exact .inl rfl

theorem Stage.pastComma_of_rest {stage : Stage} {comma : Token} {rest : List Token}
    (given : stage.rest = comma :: rest) (isComma : comma.isPunct .comma = true) :
    stage.pastComma.rest = rest := by
  rw [Stage.pastComma, Stage.atPunct_of_rest given, isComma, if_pos rfl]
  exact (Stage.passes_of_rest given).2

theorem Stage.Similar.pastComma {stage other : Stage} (similar : stage.Similar other) :
    stage.pastComma.Similar other.pastComma := by
  have same : ∀ stage : Stage, stage.pastComma.tracker = stage.tracker ∧
      stage.pastComma.nextId = stage.nextId := by
    intro stage
    unfold Stage.pastComma
    split <;> exact ⟨rfl, rfl⟩
  constructor
  · rw [(same other).1, (same stage).1, similar.tracker]
  · rw [(same other).2, (same stage).2, similar.nextId]

/-- A comma that may come or go does not matter behind a parenthesis that is open. -/
theorem scans_of_pastComma {stage : Stage} {later others : List Token}
    (scans : Scans stage.pastComma.rest others) (unmarked : Unmarked stage.pastComma.rest)
    (optional : later = others ∨ ∃ comma, comma.isPunct .comma = true ∧ later = comma :: others) :
    Scans stage.rest later := by
  rcases stage.rest_pastComma with same | ⟨comma, isComma, same⟩ <;>
    rcases optional with rfl | ⟨twin, isTwin, rfl⟩ <;> rw [same]
  · exact scans
  · exact scans.comma_right isTwin unmarked.colon
  · exact scans.comma_left isComma unmarked.colon
  · exact scans.cons ((beq_iff_eq.1 isTwin).trans (beq_iff_eq.1 isComma).symm)

section

variable (each : Repeats source printed item spelled same)
  (progresses : ∀ {before after : Stage} {a : α}, item source.toList before a after →
    after.rest.length < before.rest.length)
  (unmarked : ∀ {before after : Stage} {a : α}, item source.toList before a after →
    Unmarked before.rest)

include each progresses

/-- An item is read again though a comma behind it has come or gone. -/
theorem again_beforeComma {before middle : Stage} {a : α} {items : List α}
    {here later beyond : List Token} (first : item source.toList before a middle)
    (within : before.rest <:+ (tokenize source).tokens) (isFirst : spelled a here)
    (tail : Spelled.Tail spelled items later) (unmarked : Unmarked middle.pastComma.rest)
    (last : items = [] → Unmarked beyond ∧ startsWith .comma beyond = false) :
    ∃ others, Spelled.Commaed spelled items others ∧
      (Scans middle.pastComma.rest (others ++ beyond) →
        Kindred before.rest (here ++ (later ++ beyond))) ∧
      ∀ other : Stage, other.rest = here ++ (later ++ beyond) → before.Similar other →
        ∃ b final, item printed other b final ∧ final.pastComma.rest = others ++ beyond ∧
          middle.pastComma.Similar final.pastComma ∧ same a b := by
  obtain ⟨⟨taken, toMiddle, alike⟩, again⟩ := each first within isFirst
  have several : taken ≠ [] := by
    rintro rfl
    have shorter := progresses first
    rw [toMiddle] at shorter
    exact Nat.lt_irrefl _ shorter
  have behind : Unmarked middle.rest := by
    rcases middle.rest_pastComma with same | ⟨comma, isComma, same⟩ <;> rw [same]
    · exact unmarked
    · exact .of_punct isComma nofun nofun
  obtain ⟨others, isRest, optional, printedUnmarked, past⟩ :
      ∃ others, Spelled.Commaed spelled items others ∧
        (later ++ beyond = others ++ beyond ∨
          ∃ comma, comma.isPunct .comma = true ∧ later ++ beyond = comma :: (others ++ beyond)) ∧
        Unmarked (later ++ beyond) ∧
        ∀ stage : Stage, stage.rest = later ++ beyond → stage.pastComma.rest =
        others ++ beyond := by
    cases tail with
    | nil =>
      obtain ⟨noMark, noComma⟩ := last rfl
      refine ⟨[], rfl, .inl rfl, noMark, fun stage rest => ?_⟩
      rw [Stage.pastComma, Stage.atPunct_eq, rest, List.nil_append, noComma]
      exact rest
    | cons isComma first rest =>
      exact ⟨_, ⟨_, _, rfl, first, rest⟩, .inr ⟨_, isComma, rfl⟩, .of_punct isComma nofun nofun,
        fun stage given => Stage.pastComma_of_rest given isComma⟩
  refine ⟨others, isRest, fun scans => ?_, fun other rest similar => ?_⟩
  · rw [toMiddle]
    exact alike.kindred_of_scans several (scans_of_pastComma scans unmarked optional)
  · obtain ⟨b, final, reads, finalRest, similar, isSame⟩ :=
      again _ (behind.sameMark printedUnmarked) other rest similar
    exact ⟨b, final, reads, past final finalRest, similar.pastComma, isSame⟩

include unmarked

variable (leads : ∀ {source before a after}, item source before a after → before.Leads after)

include leads

/-- Items up to a closing bracket, with commas that may be left out. -/
theorem recurs_commas : Recurs source printed (BracketedReads .comma item)
    (fun items => Spelled.Closed .rightBracket (Spelled.Commaed spelled items))
    (List.Forall₂ same) [] := by
  rintro before after items _ beyond reads within ⟨inside, closing, rfl, isSpelled,
    isClosing⟩ kindred barred
  have noMark : Unmarked (closing :: beyond) := .of_punct isClosing nofun nofun
  have noComma : startsWith .comma (closing :: beyond) = false := by
    simp [startsWith, Token.isPunct, beq_iff_eq.1 isClosing]
  have opens : ∀ {before after : Stage} {items : List α},
      BracketedReads .comma item source.toList before items after → Unmarked before.rest := by
    intro before after items reads
    cases reads with
    | nil ends =>
      obtain ⟨token, isToken, passes⟩ := Stage.passes_of_atPunct ends
      rw [passes.1]
      exact .of_punct isToken nofun nofun
    | cons _ _ first _ => exact unmarked first
  induction reads generalizing inside with
  | @nil stage ends =>
    obtain rfl : inside = [] := isSpelled
    obtain ⟨token, isToken, passes⟩ := Stage.passes_of_atPunct ends
    refine ⟨?_, fun other rest similar => ?_⟩
    · rw [passes.1]
      exact kindred_punct isToken isClosing kindred.scans
    · refine ⟨[], other.next, .nil ?_, (Stage.passes_of_rest rest).2, similar.next, .nil⟩
      rw [Stage.atPunct_of_rest rest, isClosing]
  | @cons before middle after a items goesOn more first rest ih =>
    obtain ⟨here, later, rfl, isFirst, isRest⟩ := isSpelled
    obtain ⟨others, isOthers, ahead, firstAgain⟩ := again_beforeComma each progresses first within
      isFirst isRest (opens rest) fun _ => ⟨noMark, noComma⟩
    have inside : middle.pastComma.rest <:+ (tokenize source).tokens := by
      obtain ⟨taken, toPast⟩ := (leads first).trans middle.leads_pastComma
      exact List.IsSuffix.trans ⟨taken, toPast.symm⟩ within
    obtain ⟨behind, restAgain⟩ := ih inside others isOthers kindred barred
    simp only [List.append_assoc, List.singleton_append] at behind restAgain ⊢
    have goesAhead := ahead behind.scans
    refine ⟨goesAhead, fun other tokensRest similar => ?_⟩
    simp only [List.append_assoc, List.singleton_append] at tokensRest
    obtain ⟨b, middle', reads, middleRest, similar, sameFirst⟩ :=
      firstAgain other tokensRest similar
    obtain ⟨found, last, readsRest, lastRest, similar, sameRest⟩ :=
      restAgain middle'.pastComma (by simpa using middleRest) similar
    refine ⟨b :: found, last, .cons ?_ ?_ reads readsRest, lastRest, similar,
      .cons sameFirst sameRest⟩
    · have onward : Kindred before.rest other.rest := tokensRest ▸ goesAhead
      rw [Stage.atPunct_congr onward, goesOn]
    · rw [Stage.atEnd_eq, tokensRest, List.isEmpty_eq_false_iff]
      simp

/-- Items as long as a condition is satisfied, with commas that may be left out. -/
theorem recurs_repeated {next : Guard} (plain : next.isPlain = true) :
    Recurs source printed (RepeatedReads next item) (Spelled.Commaed spelled) (List.Forall₂ same)
      [.guard (.punct .comma), .guard (.punct .colon), .guard (.punct .less)] := by
  intro before after items tokens beyond reads within isSpelled kindred barred
  have absent : ∀ mark ∈ [Punct.comma, .colon, .less], startsWith mark after.rest = false := by
    intro mark member
    rw [← Stage.atPunct_eq]
    exact barred (.guard (.punct mark)) (by simpa using member)
  have behind : Unmarked after.rest := ⟨absent .colon (by simp), absent .less (by simp)⟩
  have noComma : startsWith .comma beyond = false :=
    (kindred.startsWith_eq .comma).trans (absent .comma (by simp))
  have opens : ∀ {before after : Stage} {items : List α}, Unmarked after.rest →
      RepeatedReads next item source.toList before items after → Unmarked before.rest := by
    intro before after items behind reads
    cases reads with
    | nil => exact behind
    | cons _ first _ => exact unmarked first
  induction reads generalizing tokens with
  | @nil stage ends =>
    obtain rfl : tokens = [] := isSpelled
    refine ⟨kindred, fun other rest similar => ⟨[], other, .nil ?_, rest, similar, .nil⟩⟩
    have goesOn : Kindred stage.rest other.rest := rest ▸ kindred
    exact (Guard.holds_congr next plain goesOn.face).trans ends
  | @cons before middle after a items goesOn first rest ih =>
    obtain ⟨here, later, rfl, isFirst, isRest⟩ := isSpelled
    obtain ⟨others, isOthers, ahead, firstAgain⟩ := again_beforeComma each progresses first within
      isFirst isRest (opens behind rest) fun _ => ⟨behind.of_kindred kindred, noComma⟩
    have inside : middle.pastComma.rest <:+ (tokenize source).tokens := by
      obtain ⟨taken, toPast⟩ := (leads first).trans middle.leads_pastComma
      exact List.IsSuffix.trans ⟨taken, toPast.symm⟩ within
    obtain ⟨onward, restAgain⟩ := ih inside isOthers kindred barred absent behind
    rw [List.append_assoc]
    have goesAhead := ahead onward.scans
    refine ⟨goesAhead, fun other tokensRest similar => ?_⟩
    rw [List.append_assoc] at tokensRest
    obtain ⟨b, middle', reads, middleRest, similar, sameFirst⟩ :=
      firstAgain other tokensRest similar
    obtain ⟨found, last, readsRest, lastRest, similar, sameRest⟩ :=
      restAgain middle'.pastComma middleRest similar
    refine ⟨b :: found, last, .cons ?_ reads readsRest, lastRest, similar,
      .cons sameFirst sameRest⟩
    have here : Kindred before.rest other.rest := tokensRest ▸ goesAhead
    exact (Guard.holds_congr next plain here.face).trans goesOn

end

end Parser

end CirText
