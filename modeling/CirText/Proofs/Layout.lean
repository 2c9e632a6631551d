import CirText.Printer
import CirText.Proofs.Parser.Conservation

/-!
# What is printed

The printed text of a module is made of the texts of its leaves one after the other, with blanks in
between, however far its lines are moved to the right.
-/

namespace CirText

variable {R S α : Type}

theorem List.flatMap_intercalate {β : Type} (f : α → List β) (separator : List α)
    (items : List (List α)) :
    (List.intercalate separator items).flatMap f =
      List.intercalate (separator.flatMap f) (items.map fun item => item.flatMap f) := by
  induction items with
  | nil => rfl
  | cons item items ih =>
    cases items with
    | nil => simp
    | cons next items =>
      rw [List.intercalate_cons_cons, List.flatMap_append, List.flatMap_append, ih]
      exact (List.intercalate_cons_cons).symm

/-! ## Characters of layouts -/

namespace Layout

/-- The characters of a layout that has been moved to the right. -/
def chars (amount : Nat) (layout : Layout) : List Char :=
  (layout.shift amount).render.toList

theorem chars_eq_flatMap (amount : Nat) (layout : Layout) :
    layout.chars amount =
      layout.flatMap fun fragment => (renderFragment (shiftFragment amount fragment)).toList := by
  rw [chars, render, shift, String.toList_join, List.map_map, List.flatMap_map]
  rfl

@[simp]
theorem chars_nil (amount : Nat) : chars amount [] = [] :=
  rfl

@[simp]
theorem chars_append (amount : Nat) (left right : Layout) :
    chars amount (left ++ right) = chars amount left ++ chars amount right := by
  simp only [chars_eq_flatMap, List.flatMap_append]

@[simp]
theorem chars_text (amount : Nat) (text : String) :
    chars amount (Layout.text text) = text.toList := by
  simp [chars_eq_flatMap, Layout.text, shiftFragment, renderFragment]

@[simp]
theorem chars_line (amount indent : Nat) :
    chars amount (Layout.line indent) = '\n' :: List.replicate (indent + amount) ' ' := by
  simp [chars_eq_flatMap, Layout.line, shiftFragment, renderFragment]

@[simp]
theorem chars_flatMap (amount : Nat) (items : List α) (f : α → Layout) :
    chars amount (items.flatMap f) = items.flatMap fun a => chars amount (f a) := by
  induction items with
  | nil => rfl
  | cons a items ih => rw [List.flatMap_cons, chars_append, ih, List.flatMap_cons]

theorem chars_shift (amount more : Nat) (layout : Layout) :
    chars amount (layout.shift more) = chars (more + amount) layout := by
  rw [chars, chars, shift, shift, shift, List.map_map]
  congr 3
  funext fragment
  cases fragment with
  | text text => rfl
  | line indent => exact congrArg Fragment.line (Nat.add_assoc _ _ _)

theorem toList_render (layout : Layout) : layout.render.toList = layout.chars 0 := by
  have same : layout.shift 0 = layout := by
    have each : shiftFragment 0 = id := by
      funext fragment
      cases fragment <;> rfl
    rw [shift, each, List.map_id]
  rw [chars, same]

theorem chars_join (amount : Nat) (separator : String) (layouts : List Layout) :
    chars amount (join separator layouts) =
      List.intercalate separator.toList (layouts.map (chars amount)) := by
  have all : join separator layouts = List.intercalate (Layout.text separator) layouts := rfl
  rw [all, chars_eq_flatMap, List.flatMap_intercalate, ← chars_eq_flatMap, chars_text]
  congr 1
  exact List.map_congr_left fun layout _ => (chars_eq_flatMap amount layout).symm

end Layout

/-! ## Characters of pieces -/

namespace Piece

/-- The characters of a piece, given those of regions. -/
def chars (region : R → List Char) : Piece R → List Char
  | .blank => [' ']
  | .token _ text => text.toList
  | .reference used => used.spelling.toList
  | .definition defined => defined.spelling.toList
  | .type written => written.text.toList
  | .attribute value => value.text.toList
  | .region inner => region inner

theorem chars_map (f : R → S) (region : S → List Char) (piece : Piece R) :
    (piece.map f).chars region = piece.chars (region ∘ f) := by
  cases piece <;> rfl

theorem flatMap_chars_commaed (region : R → List Char) (items : List (List (Piece R))) :
    (commaed items).flatMap (chars region) =
      List.intercalate ", ".toList (items.map fun item => item.flatMap (chars region)) :=
  List.flatMap_intercalate _ _ _

theorem flatMap_chars_arrange (region : R → List Char) (separator : Separator)
    (items : List (List (Piece R))) :
    (arrange separator items).flatMap (chars region) =
      List.intercalate separator.text.toList
        (items.map fun item => item.flatMap (chars region)) := by
  cases separator with
  | comma => exact flatMap_chars_commaed region items
  | blank => exact List.flatMap_intercalate _ _ _

end Piece

theorem Modifier.chars_print (region : R → List Char) (amount : Nat) (modifier : Modifier) :
    modifier.print.chars amount = modifier.pieces.flatMap (Piece.chars region) := by
  obtain ⟨rule, argument⟩ := modifier
  cases argument with
  | none => simp [print, pieces, Piece.chars, Piece.word]
  | some argument =>
    cases given : rule.argument with
    | none => simp [print, pieces, Piece.chars, Piece.word, given]
    | some form =>
      cases argument <;>
        simp [print, pieces, Piece.chars, Piece.word, Piece.punct, given, Argument.piece,
          Argument.text]

/-- What is printed by a grammar are the pieces that it has. -/
theorem Grammar.chars_print (region : R → Layout) (amount : Nat) {α : Type} (grammar : Grammar R α)
    (a : α) :
    (grammar.print region a).chars amount =
      (grammar.pieces a).flatMap (Piece.chars fun inner => (region inner).chars amount) := by
  have commaed : ∀ {layouts : List Layout} {items : List (List (Piece R))},
      layouts.map (Layout.chars amount) = items.map
        (fun item => item.flatMap (Piece.chars fun inner => (region inner).chars amount)) →
      (Layout.join ", " layouts).chars amount =
        (Piece.commaed items).flatMap (Piece.chars fun inner => (region inner).chars amount) := by
    intro layouts items same
    rw [Layout.chars_join, Piece.flatMap_chars_commaed, same]
  have each : ∀ {α : Type} {item : Grammar R α} {items : List α},
      (∀ a, (item.print region a).chars amount =
        (item.pieces a).flatMap (Piece.chars fun inner => (region inner).chars amount)) →
      (items.map (item.print region)).map (Layout.chars amount) = (items.map item.pieces).map
        (fun item => item.flatMap (Piece.chars fun inner => (region inner).chars amount)) := by
    intro α item items ih
    rw [List.map_map, List.map_map]
    exact List.map_congr_left fun a _ => ih a
  induction grammar with
  | blank => simp [print, pieces, Piece.chars]
  | punct mark => simp [print, pieces, Piece.chars, Piece.punct]
  | word text => simp [print, pieces, Piece.chars, Piece.word]
  | lexeme kind what => simp [print, pieces, Piece.chars]
  | oneOf words what => simp [print, pieces, Piece.chars, Piece.word]
  | name kind => simp [print, pieces, Piece.chars]
  | definition kind => simp [print, pieces, Piece.chars]
  | type => simp [print, pieces, Piece.chars]
  | attributeOf form => simp [print, pieces, Piece.chars]
  | namedAttribute => simp [print, pieces, Piece.chars]
  | trailingAttribute => cases a <;> simp [print, pieces, Piece.chars]
  | seq first second ihFirst ihSecond =>
    rw [print, pieces, Layout.chars_append, ihFirst, ihSecond, List.flatMap_append]
  | view as inner ih =>
    rw [print, pieces]
    cases as.read a with
    | none => rfl
    | some value => exact ih value
  | optional present inner ih =>
    cases a with
    | none => rfl
    | some value => exact ih value
  | choice isFirst first second ihFirst ihSecond =>
    cases a with
    | inl value => exact ihFirst value
    | inr value => exact ihSecond value
  | separated item ih =>
    rw [print, pieces, commaed (each ih)]
  | listed item ih =>
    rw [print, pieces, commaed (each ih)]
  | listedWithEllipsis item ih =>
    obtain ⟨items, ellipsis⟩ := a
    rw [print, pieces]
    apply commaed
    rw [List.map_append, List.map_append, each ih]
    cases ellipsis with
    | false => rfl
    | true =>
      simp only [if_pos, List.map_cons, List.map_nil, Layout.chars_text]
      rfl
  | bracketed separator item ih =>
    rw [print, pieces, List.flatMap_cons, List.flatMap_append, Piece.flatMap_chars_arrange,
      ← each ih, Layout.chars_append, Layout.chars_append, Layout.chars_join, Layout.chars_text,
      Layout.chars_text, List.append_assoc]
    rfl
  | repeated next item ih =>
    rw [print, pieces, commaed (each ih)]
  | modifierRun table =>
    rw [print, pieces, Layout.chars_flatMap, List.flatMap_assoc]
    exact List.flatMap_congr fun modifier _ => modifier.chars_print _ amount
  | spanned inner ih => exact ih a.1
  | binder what inner ih =>
    rw [print, pieces, Layout.chars_append, ih]
    simp [Piece.chars]
  | inScope inner ih => exact ih a
  | region kind implicitTerminator => simp [print, pieces, Piece.chars]
  | recommended opcode warning inner ih => exact ih a

/-! ## Leaves and their text -/

/-- The text of a leaf. -/
def Piece.text : Leaf → String
  | .blank => " "
  | .token _ text => text
  | .reference used => used.spelling
  | .definition defined => defined.spelling
  | .type written => written.text
  | .attribute value => value.text

/-- Whether a text consists of the texts of leaves. What stands for a blank is at least one blank
character. -/
inductive Written : List Leaf → List Char → Prop where
  | nil : Written [] []
  | blank {leaves : List Leaf} {blanks text : List Char}
      (all : ∀ c ∈ blanks, Text.isBlank c = true) (nonempty : blanks ≠ [])
      (rest : Written leaves text) : Written (.blank :: leaves) (blanks ++ text)
  | leaf {leaf : Leaf} {leaves : List Leaf} {text : List Char} (visible : leaf ≠ .blank)
      (rest : Written leaves text) : Written (leaf :: leaves) (leaf.text.toList ++ text)

namespace Written

variable {leaves more : List Leaf} {text other : List Char}

theorem append (left : Written leaves text) (right : Written more other) :
    Written (leaves ++ more) (text ++ other) := by
  induction left with
  | nil => exact right
  | blank all nonempty rest ih =>
    rw [List.append_assoc]
    exact .blank all nonempty ih
  | leaf visible rest ih =>
    rw [List.append_assoc]
    exact .leaf visible ih

theorem blanks {blanks : List Char} (all : ∀ c ∈ blanks, Text.isBlank c = true)
    (nonempty : blanks ≠ []) : Written [.blank] blanks := by
  simpa using Written.blank all nonempty .nil

theorem line (amount : Nat) : Written [.blank] ('\n' :: List.replicate amount ' ') := by
  apply blanks _ (List.cons_ne_nil _ _)
  refine List.forall_mem_cons.2 ⟨by decide, fun c member => ?_⟩
  rw [List.eq_of_mem_replicate member]
  decide

theorem ofLeaf (leaf : Leaf) : Written [leaf] leaf.text.toList := by
  by_cases blank : leaf = .blank
  · subst blank
    exact blanks (List.forall_mem_singleton.2 rfl) (List.cons_ne_nil _ _)
  · simpa using Written.leaf blank .nil

theorem flatMap {items : List α} {f : α → List Leaf} {g : α → List Char}
    (each : ∀ a ∈ items, Written (f a) (g a)) : Written (items.flatMap f) (items.flatMap g) := by
  induction items with
  | nil => exact .nil
  | cons a items ih =>
    obtain ⟨here, later⟩ := List.forall_mem_cons.1 each
    exact here.append (ih later)

theorem texts (leaves : List Leaf) :
    Written leaves (leaves.flatMap fun leaf => leaf.text.toList) := by
  have written : Written (leaves.flatMap fun leaf => [leaf])
      (leaves.flatMap fun leaf => leaf.text.toList) := flatMap fun leaf _ => ofLeaf leaf
  rwa [List.flatMap_singleton'] at written

theorem pieces {region : R → List Leaf} {inner : R → List Char} {pieces : List (Piece R)}
    (each : ∀ r, .region r ∈ pieces → Written (region r) (inner r)) :
    Written (pieces.flatMap (Piece.flatten region)) (pieces.flatMap (Piece.chars inner)) := by
  apply flatMap
  intro piece member
  cases piece with
  | region r => exact each r member
  | blank => exact ofLeaf .blank
  | token kind text => exact ofLeaf (.token kind text)
  | reference used => exact ofLeaf (.reference used)
  | definition defined => exact ofLeaf (.definition defined)
  | type written => exact ofLeaf (.type written)
  | «attribute» value => exact ofLeaf (.attribute value)

end Written

theorem Piece.chars_leaf (region : Empty → List Char) (leaf : Leaf) :
    leaf.chars region = leaf.text.toList := by
  cases leaf with
  | region inner => cases inner
  | blank => rfl
  | token kind text => rfl
  | reference used => rfl
  | definition defined => rfl
  | type written => rfl
  | «attribute» value => rfl

/-! ## Operations -/

theorem Written.results (results : List Definition) (amount : Nat) :
    Written (resultLeaves results) ((printResults results).chars amount) := by
  unfold resultLeaves printResults
  split
  · exact .nil
  · have names : (", ".intercalate (results.map Definition.spelling)).toList =
        (Piece.commaed (results.map fun defined => [(.definition defined : Leaf)])).flatMap
          fun leaf => leaf.text.toList := by
      rw [Piece.commaed, List.flatMap_intercalate, String.toList_intercalate, List.map_map,
        List.map_map]
      congr 1
      exact List.map_congr_left fun defined _ => (List.append_nil _).symm
    rw [Layout.chars_append, Layout.chars_text, Layout.chars_text, names]
    exact (texts _).append (texts [.blank, .punct .equal, .blank])

theorem Written.blockHeader (header : Definition × List BlockArgument) (amount : Nat) :
    Written ((Grammar.blockHeader (R := Empty)).pieces header)
      ((Grammar.blockHeader.print (R := Layout) id header).chars amount) := by
  have same : (Grammar.blockHeader (R := Empty)).recast Layout = some Grammar.blockHeader := rfl
  rw [Grammar.chars_print, Grammar.pieces_of_recast Empty.elim same, List.flatMap_map]
  simp only [Piece.chars_map, Piece.chars_leaf]
  exact texts _

theorem Block.written {block : Block Operation} {amount : Nat}
    (each : ∀ op ∈ block.ops, ∀ amount, Written op.leaves (op.layout.chars amount)) :
    Written block.allLeaves
      ((Block.print { block with ops := block.ops.map Operation.layout }).chars amount) := by
  have header : Written block.headerLeaves
      ((Block.printHeader { block with ops := block.ops.map Operation.layout }).chars amount) := by
    unfold Block.headerLeaves Block.printHeader
    cases block.label with
    | none => exact .nil
    | some label =>
      rw [Layout.chars_append, Layout.chars_line]
      exact (Written.line _).append (.blockHeader _ _)
  rw [Block.print, Layout.chars_append, Layout.chars_flatMap, List.flatMap_map]
  apply header.append
  apply Written.flatMap
  intro op member
  rw [Layout.chars_append, Layout.chars_line, Layout.chars_shift]
  exact (Written.line _).append (each op member _)

theorem Region.written {region : Region Operation} {amount : Nat}
    (each : ∀ op ∈ region.ops, ∀ amount, Written op.leaves (op.layout.chars amount)) :
    Written region.allLeaves ((region.map Operation.layout).print.chars amount) := by
  have blocks : Written (region.blocks.flatMap Block.allLeaves)
      (Layout.chars amount ((region.map Operation.layout).blocks.flatMap Block.print)) := by
    rw [Layout.chars_flatMap, Region.map, List.flatMap_map]
    apply Written.flatMap
    intro block member
    exact Block.written fun op inside => each op (List.mem_flatMap.2 ⟨block, member, inside⟩)
  rw [Region.allLeaves_eq, Region.print, Layout.chars_append, Layout.chars_append,
    Layout.chars_append, Layout.chars_text, Layout.chars_text, Layout.chars_line, List.append_assoc,
    List.append_assoc]
  exact (Written.texts [.punct .leftBrace]).append
    (blocks.append ((Written.line _).append (.texts [.punct .rightBrace])))

/-- The regions among the pieces of an operation are its regions. -/
theorem Operation.Built.mem_regions {op : Operation} (built : op.Built) {region : Region Operation}
    (member : .region region ∈ (Grammar.body op.opcode op.form).pieces ⟨op.payload, op.extra⟩) :
    region ∈ op.regions := by
  have mentioned : Mention.region region ∈ mentions
      ((Grammar.body op.opcode op.form).pieces ⟨op.payload, op.extra⟩) := by
    rw [mentions_eq_filterMap]
    exact List.mem_filterMap.2 ⟨_, member, rfl⟩
  have listed :=
    ((Grammar.body_describes op.opcode op.form).mentions _ built.body).mem_iff.1 mentioned
  have inPayload : region ∈ op.payload.regions := by simpa [Payload.mentions] using listed
  exact inPayload

/-- An operation is printed as the names of its results, its keyword and the pieces of its body. -/
theorem Operation.chars_layout {op : Operation}
    (built : (Grammar.body op.opcode op.form).Builds ⟨op.payload, op.extra⟩) (amount : Nat) :
    op.layout.chars amount = (printResults op.results).chars amount ++ (op.opcode.keyword.toList ++
      ((Grammar.body op.opcode op.form).pieces ⟨op.payload, op.extra⟩).flatMap
        (Piece.chars fun region => (region.map Operation.layout).print.chars amount)) := by
  obtain ⟨node⟩ := op
  have pieces := Node.pieces_map (Region.map (fold Node.print)) node built
  rw [layout, fold_of, Node.print, Layout.chars_append, Layout.chars_append, Grammar.chars_print,
    pieces, List.flatMap_map, Node.opcode_map, List.append_assoc, Layout.chars_text]
  simp only [Piece.chars_map]
  rfl

/-- An operation is printed as its leaves. -/
theorem Operation.written {op : Operation} (whole : op.Whole) (amount : Nat) :
    Written op.leaves (op.layout.chars amount) := by
  induction op using Operation.induction generalizing amount with
  | step op ih =>
    have built := whole.built
    have body : Written
        (((Grammar.body op.opcode op.form).pieces ⟨op.payload, op.extra⟩).flatMap
          (Piece.flatten Region.allLeaves))
        (((Grammar.body op.opcode op.form).pieces ⟨op.payload, op.extra⟩).flatMap
          (Piece.chars fun region => (region.map Operation.layout).print.chars amount)) := by
      apply Written.pieces
      intro region member
      apply Region.written
      intro child inside amount
      have isChild : child ∈ op.children :=
        List.mem_flatMap.2 ⟨region, built.mem_regions member, inside⟩
      exact ih child isChild (whole.child isChild) amount
    rw [op.leaves_eq built, op.chars_layout built.body]
    exact (Written.results _ _).append (.leaf nofun body)

end CirText
