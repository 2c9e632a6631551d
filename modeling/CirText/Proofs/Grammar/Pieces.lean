import CirText.Grammar.Operation

/-!
# The pieces of what a grammar describes

`Grammar.pieces` lists what a value consists of in the order in which it is printed: tokens, names,
types, attributes and regions, and the blanks between them. The names that an operation refers to or
defines and the regions that it contains are found among the pieces of its body.
-/

namespace CirText

/-- A part of what a grammar describes that is not made of others. -/
inductive Piece (R : Type) where
  /-- A blank between tokens. -/
  | blank
  /-- A token with its text. -/
  | token (kind : TokenKind) (text : String)
  /-- A use of a name. -/
  | reference (reference : Reference)
  /-- A name that is defined. -/
  | definition (definition : Definition)
  /-- A type. -/
  | type (type : TypeText)
  /-- An attribute. -/
  | attribute (value : AttributeText)
  /-- A region. -/
  | region (region : R)

namespace Piece

variable {R : Type}

/-- A punctuation mark. -/
def punct (mark : Punct) : Piece R :=
  .token (.punct mark) mark.text

/-- A fixed bare word. -/
def word (text : String) : Piece R :=
  .token .identifier text

/-- The pieces of items with a comma and a blank between any two of them. -/
def commaed (items : List (List (Piece R))) : List (Piece R) :=
  List.intercalate [punct .comma, blank] items

/-- The pieces of the items of a bracketed list. -/
def arrange : Separator → List (List (Piece R)) → List (Piece R)
  | .comma, items => commaed items
  | .blank, items => List.intercalate [blank] items

@[simp]
theorem commaed_nil : commaed (R := R) [] = [] :=
  rfl

@[simp]
theorem commaed_singleton (item : List (Piece R)) : commaed [item] = item := by
  simp [commaed]

@[simp]
theorem commaed_cons_cons (item next : List (Piece R)) (items : List (List (Piece R))) :
    commaed (item :: next :: items) = item ++ punct .comma :: blank :: commaed (next :: items) := by
  simp [commaed]

end Piece

/-- The argument of a modifier as a piece. -/
def Argument.piece {R : Type} (kind : ArgumentKind) : Argument → Piece R
  | .lexeme word => .token (if kind = .integer then .integer else .identifier) word.text
  | .symbol reference => .reference reference
  | .attribute value => .attribute value

/-- The pieces of a modifier. -/
def Modifier.pieces {R : Type} (modifier : Modifier) : List (Piece R) :=
  .blank :: .word modifier.rule.keyword ::
    match modifier.argument, modifier.rule.argument with
    | some argument, some form =>
      [.punct form.opening, argument.piece form.kind, .punct form.closing]
    | _, _ => []

namespace Grammar

variable {R α β : Type}

/-- The pieces of what a grammar describes, in the order in which they are printed. -/
def pieces : {α : Type} → Grammar R α → α → List (Piece R)
  | _, .blank, _ => [.blank]
  | _, .punct mark, _ => [.punct mark]
  | _, .word text, _ => [.word text]
  | _, .lexeme kind _, a => [.token kind a.text]
  | _, .oneOf _ _, a => [.word a.text]
  | _, .name _, a => [.reference a]
  | _, .definition _, a => [.definition a]
  | _, .type, a => [.type a]
  | _, .attributeOf _, a => [.attribute a]
  | _, .namedAttribute, a => [.attribute a]
  | _, .trailingAttribute, a => a.toList.flatMap fun value => [.blank, .attribute value]
  | _, .seq first second, (a, b) => first.pieces a ++ second.pieces b
  | _, .view as inner, b =>
    match as.read b with
    | some a => inner.pieces a
    | none => []
  | _, .optional _ _, none => []
  | _, .optional _ inner, some a => inner.pieces a
  | _, .choice _ first _, .inl a => first.pieces a
  | _, .choice _ _ second, .inr b => second.pieces b
  | _, .separated item, (head, tail) => Piece.commaed ((head :: tail).map item.pieces)
  | _, .listed item, items => Piece.commaed (items.map item.pieces)
  | _, .listedWithEllipsis item, (items, ellipsis) =>
    Piece.commaed (items.map item.pieces ++ if ellipsis then [[.punct .ellipsis]] else [])
  | _, .bracketed separator item, items =>
    .punct .leftBracket ::
      (Piece.arrange separator (items.map item.pieces) ++ [.punct .rightBracket])
  | _, .repeated _ item, items => Piece.commaed (items.map item.pieces)
  | _, .modifierRun table, a => (table.list a).flatMap Modifier.pieces
  | _, .spanned inner, (a, _) => inner.pieces a
  | _, .binder _ inner, (defined, a) => .definition defined :: inner.pieces a
  | _, .inScope inner, a => inner.pieces a
  | _, .region _ _, a => [.region a]
  | _, .recommended _ _ inner, a => inner.pieces a

/-- Whether a value is one that the grammar can build: where it is another representation of a
value, that value exists. -/
def Builds : {α : Type} → Grammar R α → α → Prop
  | _, .view as _, b => ∃ a, as.build a = b
  | _, _, _ => True

/-! ## Pieces of derived grammars -/

@[simp]
theorem pieces_view (as : View α β) (inner : Grammar R α) (a : α) :
    (view as inner).pieces (as.build a) = inner.pieces a := by
  rw [pieces, as.read_build]

@[simp]
theorem pieces_punct (mark : Punct) : (Grammar.punct (R := R) mark).pieces () = [.punct mark] :=
  rfl

@[simp]
theorem pieces_word (text : String) : (Grammar.word (R := R) text).pieces () = [.word text] :=
  rfl

@[simp]
theorem pieces_blank : (blank (R := R)).pieces () = [.blank] :=
  rfl

@[simp]
theorem pieces_repeated (next : Guard) (item : Grammar R α) (items : List α) :
    (repeated next item).pieces items = Piece.commaed (items.map item.pieces) :=
  rfl

theorem pieces_optional (present : Guard) (inner : Grammar R α) (a : Option α) :
    (optional present inner).pieces a = (a.map inner.pieces).getD [] := by
  cases a <;> rfl

theorem pieces_bracketed (separator : Separator) (item : Grammar R α) (items : List α) :
    (bracketed separator item).pieces items =
      .punct .leftBracket ::
        (Piece.arrange separator (items.map item.pieces) ++ [.punct .rightBracket]) :=
  rfl

@[simp]
theorem pieces_seq (first : Grammar R α) (second : Grammar R β) (both : α × β) :
    (seq first second).pieces both = first.pieces both.1 ++ second.pieces both.2 :=
  rfl

@[simp]
theorem pieces_spanned (inner : Grammar R α) (found : α × Span) :
    (spanned inner).pieces found = inner.pieces found.1 :=
  rfl

@[simp]
theorem pieces_inScope (inner : Grammar R α) (a : α) : (inScope inner).pieces a = inner.pieces a :=
  rfl

@[simp]
theorem pieces_recommended (opcode : Opcode) (warning : String) (inner : Grammar R (Option α))
    (a : Option α) : (recommended opcode warning inner).pieces a = inner.pieces a :=
  rfl

@[simp]
theorem pieces_binder (what : String) (inner : Grammar R α) (bound : Definition × α) :
    (binder what inner).pieces bound = .definition bound.1 :: inner.pieces bound.2 :=
  rfl

@[simp]
theorem pieces_value (used : Reference) : (value (R := R)).pieces used = [.reference used] :=
  rfl

@[simp]
theorem pieces_label (used : Reference) : (label (R := R)).pieces used = [.reference used] :=
  rfl

@[simp]
theorem pieces_symbol (used : Reference) : (symbol (R := R)).pieces used = [.reference used] :=
  rfl

@[simp]
theorem pieces_definition (kind : NameKind) (defined : Definition) :
    (definition (R := R) kind).pieces defined = [.definition defined] :=
  rfl

@[simp]
theorem pieces_lexeme (kind : TokenKind) (what : String) (found : Lexeme) :
    (lexeme (R := R) kind what).pieces found = [.token kind found.text] :=
  rfl

@[simp]
theorem pieces_type (written : TypeText) : (type (R := R)).pieces written = [.type written] :=
  rfl

@[simp]
theorem pieces_region (kind : RegionKind) (implicitTerminator : Bool) (inner : R) :
    (region kind implicitTerminator).pieces inner = [.region inner] :=
  rfl

@[simp]
theorem pieces_before (first : Grammar R Unit) (rest : Grammar R α) (a : α) :
    (before first rest).pieces a = first.pieces () ++ rest.pieces a :=
  rfl

@[simp]
theorem pieces_followedBy (inner : Grammar R α) (last : Grammar R Unit) (a : α) :
    (followedBy inner last).pieces a = inner.pieces a ++ last.pieces () :=
  rfl

@[simp]
theorem pieces_mark (mark : Punct) (rest : Grammar R α) (a : α) :
    (Grammar.mark mark rest).pieces a = .punct mark :: rest.pieces a :=
  rfl

@[simp]
theorem pieces_spaced (rest : Grammar R α) (a : α) :
    (spaced rest).pieces a = .blank :: rest.pieces a :=
  rfl

@[simp]
theorem pieces_comma (rest : Grammar R α) (a : α) :
    (comma rest).pieces a = .punct .comma :: .blank :: rest.pieces a :=
  rfl

@[simp]
theorem pieces_colon (rest : Grammar R α) (a : α) :
    (colon rest).pieces a = .blank :: .punct .colon :: .blank :: rest.pieces a :=
  rfl

@[simp]
theorem pieces_spacedWord (text : String) (rest : Grammar R α) (a : α) :
    (spacedWord text rest).pieces a = .blank :: .word text :: rest.pieces a :=
  rfl

@[simp]
theorem pieces_parens (inner : Grammar R α) (a : α) :
    (parens inner).pieces a = .punct .leftParen :: (inner.pieces a ++ [.punct .rightParen]) :=
  rfl

@[simp]
theorem pieces_brackets (inner : Grammar R α) (a : α) :
    (brackets inner).pieces a = .punct .leftBracket :: (inner.pieces a ++ [.punct .rightBracket]) :=
  rfl

@[simp]
theorem pieces_angles (inner : Grammar R α) (a : α) :
    (angles inner).pieces a = .punct .less :: (inner.pieces a ++ [.punct .greater]) :=
  rfl

@[simp]
theorem pieces_list (item : Grammar R α) (items : List α) :
    (list item).pieces items = Piece.commaed (items.map item.pieces) := by
  cases items <;> rfl

@[simp]
theorem pieces_typedValue (typed : TypedValue) :
    (typedValue (R := R)).pieces typed =
      [.reference typed.value, .blank, .punct .colon, .blank, .type typed.type] :=
  rfl

@[simp]
theorem pieces_operands (both : Operands) :
    (operands (R := R)).pieces both =
      Piece.commaed (both.values.map fun used => [.reference used]) ++
        .blank :: .punct .colon :: .blank ::
          Piece.commaed (both.types.map fun written => [.type written]) := by
  obtain ⟨values, types⟩ := both
  cases values <;> cases types <;> rfl

@[simp]
theorem pieces_nested (kind : RegionKind) (implicitTerminator : Bool) (inner : R) :
    (nested kind implicitTerminator).pieces inner = [.blank, .region inner] :=
  rfl

@[simp]
theorem pieces_arguments (args : List Reference) :
    (arguments (R := R)).pieces args =
      .punct .leftParen ::
        (Piece.commaed (args.map fun used => [.reference used]) ++ [.punct .rightParen]) :=
  rfl

end Grammar

end CirText
