import CirText.Proofs.Token.Contents

/-!
# Places in the text

An offset is a boundary of a text if it lies between two of its characters, or at one of its ends.
Every token and every error of the lexer starts and ends at boundaries, and the text of a token is
what stands between them.
-/

namespace CirText

/-! ## Boundaries -/

/-- Whether an offset lies between two characters of a text or at one of its ends. -/
def Text.Boundary (text : List Char) (offset : Nat) : Prop :=
  ∃ before after, text = before ++ after ∧ Text.byteSize before = offset

theorem Text.Boundary.le {text : List Char} {offset : Nat} (h : Text.Boundary text offset) :
    offset ≤ Text.byteSize text := by
  obtain ⟨before, after, rfl, rfl⟩ := h
  rw [byteSize_append]
  exact Nat.le_add_right _ _

theorem Text.boundary_zero (text : List Char) : Text.Boundary text 0 :=
  ⟨[], text, rfl, rfl⟩

theorem Text.boundary_size (text : List Char) : Text.Boundary text (Text.byteSize text) :=
  ⟨text, [], (List.append_nil text).symm, rfl⟩

/-- Whether a span starts and ends at boundaries of a text, and not before it starts. -/
structure Span.On (text : List Char) (span : Span) : Prop where
  ordered : span.start ≤ span.stop
  start : Text.Boundary text span.start
  stop : Text.Boundary text span.stop

theorem Span.on_emptyAt {text : List Char} {offset : Nat} (h : Text.Boundary text offset) :
    (Span.emptyAt offset).On text :=
  ⟨Nat.le_refl _, h, h⟩

theorem Text.boundary_append (before after : List Char) :
    Text.Boundary (before ++ after) (Text.byteSize before) :=
  ⟨before, after, rfl, rfl⟩

/-- The span of a piece of a text. -/
theorem Span.on_append (before piece after : List Char) {span : Span}
    (start : span.start = Text.byteSize before)
    (stop : span.stop = Text.byteSize before + Text.byteSize piece) :
    span.On (before ++ (piece ++ after)) where
  ordered := by
    rw [start, stop]
    exact Nat.le_add_right _ _
  start := start ▸ Text.boundary_append before (piece ++ after)
  stop := by
    rw [stop, ← Text.byteSize_append, ← List.append_assoc]
    exact Text.boundary_append (before ++ piece) after

/-! ## Tokens and errors -/

/-- Whether a token stands in a text where its span says. -/
structure Token.On (text : List Char) (token : Token) : Prop where
  span : token.span.On text
  text : token.text = String.ofList (token.span.slice text)

/-- Whether an item of the lexer stands in a text where its span says. -/
def LexItem.On (text : List Char) : LexItem → Prop
  | .token found => found.On text
  | .error fault => fault.span.On text

namespace Lexer

theorem item_on (before : List Char) (c : Char) (rest : List Char) :
    (item (Text.byteSize before) c rest).1.On (before ++ c :: rest) := by
  have cut : ∀ count, before ++ c :: rest =
      before ++ ((c :: rest.take count) ++ rest.drop count) := by
    intro count
    rw [List.cons_append, List.take_append_drop]
  unfold item
  split
  · rename_i kind length found
    rw [cut (length - 1)]
    refine ⟨Span.on_append before _ _ rfl rfl, ?_⟩
    exact congrArg String.ofList (Text.slice_append before _ _).symm
  · split
    · have whole : before ++ c :: rest = before ++
          ((c :: rest.takeWhile (· != '\n')) ++ rest.dropWhile (· != '\n')) := by
        rw [List.cons_append, List.takeWhile_append_dropWhile]
      rw [whole]
      exact @Span.on_append before (c :: rest.takeWhile (· != '\n')) _ ⟨_, _⟩ rfl rfl
    · have whole : before ++ c :: rest = before ++ ([c] ++ rest) := rfl
      rw [whole]
      exact @Span.on_append before [c] rest ⟨_, _⟩ rfl rfl

/-- All items stand in the text around the one that is split. -/
theorem itemsFrom_on {whole : List Char} (offset : Nat) (text : List Char) :
    ∀ before, whole = before ++ text → Text.byteSize before = offset →
      ∀ found ∈ itemsFrom offset text, found.On whole := by
  induction offset, text using itemsFrom.induct with
  | case1 offset text start found =>
    intro before _ _ found' member
    rw [itemsFrom_eq, found] at member
    cases member
  | case2 offset text start c rest found first length same ih =>
    intro before split size one member
    obtain ⟨skipped, parts, moves⟩ := skipTrivia_spec false offset text
    rw [found] at parts moves
    change text = skipped ++ c :: rest at parts
    change start = offset + Text.byteSize skipped at moves
    have start' : Text.byteSize (before ++ skipped) = start := by
      rw [Text.byteSize_append, size, moves]
    have all : whole = (before ++ skipped) ++ c :: rest := by
      rw [split, parts, List.append_assoc]
    rw [itemsFrom_eq, found] at member
    simp only [same, List.mem_cons] at member
    rcases member with rfl | later
    · have here := item_on (before ++ skipped) c rest
      rwa [start', same, ← all] at here
    · refine ih (before ++ skipped ++ c :: rest.take length) ?_ ?_ one later
      · rw [all, List.append_assoc (before ++ skipped), List.cons_append, List.take_append_drop]
      · rw [Text.byteSize_append, start']

end Lexer

theorem lexItems_on (source : String) : ∀ found ∈ lexItems source, found.On source.toList :=
  Lexer.itemsFrom_on 0 source.toList [] rfl rfl

/-- Every token stands where its span says. -/
theorem tokens_on (source : String) :
    ∀ token ∈ (tokenize source).tokens, token.On source.toList := by
  intro token member
  obtain ⟨found, inside, isToken⟩ := List.mem_filterMap.1 member
  have stands := lexItems_on source found inside
  cases found with
  | token other =>
    cases isToken
    exact stands
  | error fault => cases isToken

/-- Every error of the lexer stands in the text. -/
theorem errors_on (source : String) :
    ∀ fault ∈ (tokenize source).errors, fault.span.On source.toList := by
  intro fault member
  obtain ⟨found, inside, isError⟩ := List.mem_filterMap.1 member
  have stands := lexItems_on source found inside
  cases found with
  | token other => cases isError
  | error other =>
    cases isError
    exact stands

end CirText
