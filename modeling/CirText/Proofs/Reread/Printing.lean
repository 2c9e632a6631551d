import CirText.Proofs.Layout
import CirText.Proofs.Reread.Bodies

/-!
# Printing what is the same but for its places

What is printed depends neither on where its parts stand nor on the order in which modifiers were
read. So two values of a grammar that are the same but for their places are printed alike, if their
regions are.
-/

namespace CirText

variable {R X α : Type}

/-! ## Pieces -/

theorem Argument.chars_unplaced (region : R → List Char) (kind : ArgumentKind)
    (argument : Argument) :
    (argument.unplaced.piece kind).chars region = (argument.piece kind).chars region := by
  cases argument <;> rfl

theorem Modifier.chars_unplaced (region : R → List Char) (modifier : Modifier) :
    modifier.unplaced.pieces.flatMap (Piece.chars region) =
      modifier.pieces.flatMap (Piece.chars region) := by
  obtain ⟨rule, _ | argument⟩ := modifier
  · rfl
  · cases form : rule.argument with
    | none => simp [pieces, unplaced, form]
    | some form =>
      simp only [pieces, unplaced, form, Option.map_some, List.flatMap_cons, List.flatMap_nil,
        argument.chars_unplaced]

/-- Modifiers that are equal without places are printed alike. -/
theorem Modifier.chars_of_unplaced (region : R → List Char) {modifiers others : List Modifier}
    (same : modifiers.map Modifier.unplaced = others.map Modifier.unplaced) :
    (modifiers.flatMap Modifier.pieces).flatMap (Piece.chars region) =
      (others.flatMap Modifier.pieces).flatMap (Piece.chars region) := by
  have each : ∀ modifiers : List Modifier,
      (modifiers.flatMap Modifier.pieces).flatMap (Piece.chars region) =
        (modifiers.map Modifier.unplaced).flatMap
          fun modifier => modifier.pieces.flatMap (Piece.chars region) := by
    intro modifiers
    rw [List.flatMap_assoc, List.flatMap_map]
    exact List.flatMap_congr fun modifier _ => (modifier.chars_unplaced region).symm
  rw [each, each, same]

namespace Grammar

/-- Whether the modifiers of all tables of a grammar are collected again from what is written. -/
def Stable : {α : Type} → Grammar R α → Prop
  | _, .seq first second => first.Stable ∧ second.Stable
  | _, .choice _ first second => first.Stable ∧ second.Stable
  | _, .modifierRun table => ∃ unplaced, table.Stable unplaced
  | _, .view _ inner | _, .optional _ inner | _, .separated inner | _, .listed inner
  | _, .listedWithEllipsis inner | _, .bracketed _ inner | _, .repeated _ inner
  | _, .spanned inner | _, .binder _ inner | _, .inScope inner
  | _, .recommended _ _ inner => inner.Stable
  | _, _ => True

theorem body_stable (opcode : Opcode) (form : Form) : (body (R := R) opcode form).Stable := by
  unfold body
  split
  all_goals repeat' first
    | exact trivial
    | apply And.intro
    | exact ⟨_, ModifierTable.beforeFunctionName_stable⟩
    | exact ⟨_, ModifierTable.afterFunctionSignature_stable⟩
    | exact ⟨_, ModifierTable.afterCall_stable⟩
    | exact ⟨_, ModifierTable.afterTryCall_stable⟩
    | exact ⟨_, ModifierTable.ofMemoryAccess_stable⟩
    | exact ⟨_, ModifierTable.beforeGlobalName_stable⟩

theorem blockHeader_stable : (blockHeader (R := R)).Stable := by
  unfold blockHeader
  repeat' first
    | exact trivial
    | apply And.intro

variable {f : R → X} {region : R → List Char}

/-- Items are printed alike one by one if items that are the same but for their places are. -/
theorem map_chars_of_forall₂ {α : Type} {item : Grammar R α}
    (alike : ∀ {a b : α}, item.Same f a b → (item.pieces a).flatMap (Piece.chars region) =
      (item.pieces b).flatMap (Piece.chars region)) {items others : List α}
    (same : List.Forall₂ (item.Same f) items others) :
    (items.map item.pieces).map (fun pieces => pieces.flatMap (Piece.chars region)) =
      (others.map item.pieces).map fun pieces => pieces.flatMap (Piece.chars region) := by
  rw [List.map_map, List.map_map]
  exact map_eq_of_forall₂ same fun _ _ same => alike same

/-- Values that are the same but for their places are printed alike. -/
theorem chars_of_same (regions : ∀ {inner other}, f inner = f other → region inner = region other)
    {α : Type} (grammar : Grammar R α) (stable : grammar.Stable) {a b : α}
    (same : grammar.Same f a b) :
    (grammar.pieces a).flatMap (Piece.chars region) =
      (grammar.pieces b).flatMap (Piece.chars region) := by
  induction grammar with
  | blank | punct | word => rfl
  | lexeme kind what | oneOf words what =>
    have text : a.unplaced.text = b.unplaced.text := congrArg Lexeme.text same
    exact congrArg (fun text => text.toList ++ []) text
  | name kind => exact congrArg (fun used => used.spelling.toList ++ []) same
  | definition kind => exact congrArg (fun defined => defined.spelling.toList ++ []) same
  | type => exact congrArg (fun written => written.text.toList ++ []) same
  | attributeOf form => exact congrArg (fun value => value.text.toList ++ []) same
  | namedAttribute => exact congrArg (fun value => value.text.toList ++ []) same
  | trailingAttribute =>
    cases a with
    | none =>
      cases b with
      | none => rfl
      | some value => cases same
    | some value =>
      cases b with
      | none => cases same
      | some other =>
        exact congrArg (fun value => ' ' :: (value.text.toList ++ [])) (Option.some.inj same)
  | seq first second ihFirst ihSecond =>
    obtain ⟨a, x⟩ := a
    obtain ⟨b, y⟩ := b
    rw [pieces, pieces, List.flatMap_append, List.flatMap_append, ihFirst stable.1 same.1,
      ihSecond stable.2 same.2]
  | view as inner ih =>
    obtain ⟨x, y, same, rfl, rfl⟩ := same
    rw [pieces_view, pieces_view]
    exact ih stable same
  | optional present inner ih =>
    cases same with
    | none => rfl
    | some same => exact ih stable same
  | choice isFirst first second ihFirst ihSecond =>
    cases same with
    | inl same => exact ihFirst stable.1 same
    | inr same => exact ihSecond stable.2 same
  | separated item ih =>
    have items : List.Forall₂ (item.Same f) (a.1 :: a.2) (b.1 :: b.2) := .cons same.1 same.2
    rw [pieces, pieces, Piece.flatMap_chars_commaed, Piece.flatMap_chars_commaed,
      map_chars_of_forall₂ (ih stable) items]
  | listed item ih | repeated next item ih =>
    rw [pieces, pieces, Piece.flatMap_chars_commaed, Piece.flatMap_chars_commaed,
      map_chars_of_forall₂ (ih stable) same]
  | listedWithEllipsis item ih =>
    obtain ⟨items, ellipsis⟩ := a
    obtain ⟨others, _⟩ := b
    obtain ⟨same, rfl⟩ := same
    rw [pieces, pieces, Piece.flatMap_chars_commaed, Piece.flatMap_chars_commaed, List.map_append,
      List.map_append, map_chars_of_forall₂ (ih stable) same]
  | bracketed separator item ih =>
    rw [pieces, pieces, List.flatMap_cons, List.flatMap_cons, List.flatMap_append,
      List.flatMap_append, Piece.flatMap_chars_arrange, Piece.flatMap_chars_arrange,
      map_chars_of_forall₂ (ih stable) same]
  | modifierRun table =>
    obtain ⟨unplaced, stable⟩ := stable
    obtain ⟨written, rfl, same⟩ := same
    exact Modifier.chars_of_unplaced region (stable.list_collect same).symm
  | spanned inner ih => exact ih stable same
  | binder what inner ih =>
    obtain ⟨sameName, same⟩ := same
    rw [pieces_binder, pieces_binder, List.flatMap_cons, List.flatMap_cons, ih stable same]
    exact congrArg (fun defined => defined.spelling.toList ++ _) sameName
  | inScope inner ih => exact ih stable same
  | region kind implicitTerminator => exact congrArg (· ++ []) (regions same)
  | recommended opcode warning inner ih => exact ih stable same

end Grammar

end CirText
