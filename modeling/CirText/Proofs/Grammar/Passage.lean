import CirText.Proofs.Parser.Passage

/-!
# What grammars read is accounted for

The leaves of a value account for the tokens that it is read from and for the names that are defined
on the way. Modifiers may have been put into another order, and commas may have been left out or
added; nothing else is lost and nothing is made up.
-/

namespace CirText

open CirText.Parser

variable {R α : Type}

namespace Grammar

/-- Whether the tokens whose text is kept are neither names nor punctuation marks. -/
def plain : {α : Type} → Grammar R α → Bool
  | _, .lexeme kind _ => kind.isPlain
  | _, .seq first second | _, .choice _ first second => first.plain && second.plain
  | _, .view _ inner | _, .optional _ inner | _, .separated inner | _, .listed inner
  | _, .listedWithEllipsis inner | _, .bracketed _ inner | _, .repeated _ inner
  | _, .spanned inner | _, .binder _ inner | _, .inScope inner | _, .recommended _ _ inner =>
    inner.plain
  | _, _ => true

theorem body_plain (opcode : Opcode) (form : Form) : (body (R := R) opcode form).plain = true := by
  unfold body
  split <;> rfl

theorem blockHeader_plain : (blockHeader (R := R)).plain = true :=
  rfl

/-- The leaves of a value, given those of regions. -/
def leaves (grammar : Grammar R α) (region : R → List Leaf) (a : α) : List Leaf :=
  (grammar.pieces a).flatMap (Piece.flatten region)

theorem leaves_commaed (item : Grammar R α) (region : R → List Leaf) (items : List α) :
    (((Piece.commaed (items.map item.pieces)).flatMap (Piece.flatten region)).filter
      Piece.isSignificant).Perm
        ((items.flatMap (item.leaves region)).filter Piece.isSignificant) := by
  rw [filter_commaed, List.flatMap_map]
  exact .refl _

theorem leaves_modifier (region : R → List Leaf) (modifier : Modifier) :
    (modifier.pieces (R := R)).flatMap (Piece.flatten region) = modifier.pieces := by
  obtain ⟨rule, argument⟩ := modifier
  cases argument with
  | none => rfl
  | some argument =>
    cases form : rule.argument with
    | none => simp [Modifier.pieces, form, Piece.flatten, Piece.word]
    | some form =>
      cases argument <;>
        simp [Modifier.pieces, form, Piece.flatten, Piece.word, Piece.punct, Argument.piece]

variable {region : RegionKind → Bool → Meaning R} {inner : R → List Leaf} {source : List Char}

/-- What is read by a grammar can be built by it, and its leaves account for all that is read. -/
theorem reads_passage
    (regions : ∀ kind implicitTerminator {before after : Stage} {a : R},
      region kind implicitTerminator source before a after → Passage source before (inner a) after)
    {α : Type} (grammar : Grammar R α) (lawful : grammar.Lawful) (isPlain : grammar.plain = true)
    {before after : Stage} {a : α} (reads : grammar.Reads region source before a after) :
    grammar.Builds a ∧ Passage source before (grammar.leaves inner a) after := by
  induction grammar generalizing before after with
  | blank =>
    obtain rfl := reads
    exact ⟨trivial, (Passage.refl source _).congr (.refl _)⟩
  | punct mark =>
    obtain ⟨found, isMark, passes⟩ := reads
    exact ⟨trivial, .punct isMark passes⟩
  | word text =>
    obtain ⟨found, isWord, passes⟩ := reads
    exact ⟨trivial, .word isWord passes⟩
  | lexeme kind what =>
    obtain ⟨found, ⟨sameKind, passes⟩, rfl⟩ := reads
    exact ⟨trivial, .lexeme sameKind isPlain passes⟩
  | oneOf words what =>
    obtain ⟨found, ⟨isOne, passes⟩, rfl⟩ := reads
    obtain ⟨text, _, isWord⟩ := List.any_eq_true.1 isOne
    have same : found.text = text := by
      have both := Bool.and_eq_true_iff.1 isWord
      exact beq_iff_eq.1 both.2
    have passage : Passage source before [.word text] after := .word isWord passes
    rw [← same] at passage
    exact ⟨trivial, passage⟩
  | name kind => exact ⟨trivial, .refers reads⟩
  | definition kind =>
    obtain ⟨found, middle, ⟨isName, passes⟩, defines⟩ := reads
    exact ⟨trivial, .defines isName passes defines⟩
  | type => exact ⟨trivial, .typeReads reads⟩
  | attributeOf form => exact ⟨trivial, .attributeReads reads⟩
  | namedAttribute => exact ⟨trivial, .namedAttributeReads reads⟩
  | trailingAttribute =>
    have passage := Passage.trailingAttributeReads reads
    refine ⟨trivial, ?_⟩
    cases a with
    | none => exact passage
    | some value => exact passage
  | seq first second ihFirst ihSecond =>
    obtain ⟨middle, readsFirst, readsSecond⟩ := reads
    have both := Bool.and_eq_true_iff.1 isPlain
    have passage := (ihFirst lawful.1 both.1 readsFirst).2.trans
      (ihSecond lawful.2 both.2 readsSecond).2
    refine ⟨trivial, ?_⟩
    rw [leaves, pieces, List.flatMap_append]
    exact passage
  | view as inner ih =>
    obtain ⟨value, reads, rfl⟩ := reads
    refine ⟨⟨value, rfl⟩, ?_⟩
    rw [leaves, pieces_view]
    exact (ih lawful isPlain reads).2
  | optional present inner ih =>
    unfold Reads at reads
    split at reads
    · obtain ⟨value, reads, rfl⟩ := reads
      exact ⟨trivial, (ih lawful isPlain reads).2⟩
    · obtain ⟨rfl, rfl⟩ := reads
      exact ⟨trivial, .refl source _⟩
  | choice isFirst first second ihFirst ihSecond =>
    have both := Bool.and_eq_true_iff.1 isPlain
    unfold Reads at reads
    split at reads
    · obtain ⟨value, reads, rfl⟩ := reads
      exact ⟨trivial, (ihFirst lawful.1 both.1 reads).2⟩
    · obtain ⟨value, reads, rfl⟩ := reads
      exact ⟨trivial, (ihSecond lawful.2 both.2 reads).2⟩
  | separated item ih =>
    have passage := Passage.separated (fun reads => (ih lawful isPlain reads).2) reads
    exact ⟨trivial, passage.congr (leaves_commaed item inner (a.1 :: a.2)).symm⟩
  | listed item ih =>
    have passage := Passage.listed (fun reads => (ih lawful isPlain reads).2) reads
    exact ⟨trivial, passage.congr (leaves_commaed item inner a).symm⟩
  | listedWithEllipsis item ih =>
    have passage := Passage.listedWithEllipsis (fun reads => (ih lawful isPlain reads).2) reads
    obtain ⟨items, ellipsis⟩ := a
    refine ⟨trivial, passage.congr ?_⟩
    rw [leaves, pieces, filter_commaed, List.flatMap_append, List.flatMap_map]
    cases ellipsis
    · exact .refl _
    · exact .refl _
  | bracketed separator item ih =>
    obtain ⟨opening, middle, ⟨isOpening, passes⟩, reads⟩ := reads
    have items := Passage.bracketed (fun reads => (ih lawful isPlain reads).2) reads
    have passage := (Passage.punct isOpening passes).trans items
    refine ⟨trivial, passage.congr ?_⟩
    rw [leaves, pieces, List.flatMap_cons, List.flatMap_append, List.filter_append,
      List.filter_append, List.filter_append, List.filter_append, filter_arrange, List.flatMap_map]
    exact .refl _
  | repeated next item ih =>
    have passage := Passage.repeated (fun reads => (ih lawful isPlain reads).2) reads
    exact ⟨trivial, passage.congr (leaves_commaed item inner a).symm⟩
  | modifierRun table =>
    obtain ⟨modifiers, reads, rfl⟩ := reads
    have start : ModifierTable.Run table.rules [] := ⟨by rintro _ ⟨⟩, .nil⟩
    obtain ⟨run, more, same, passage⟩ := Passage.modifiersRead reads start
    obtain rfl : modifiers = more := same
    refine ⟨trivial, passage.congr ?_⟩
    rw [leaves, pieces, List.flatMap_assoc]
    simp only [leaves_modifier]
    exact ((lawful modifiers run).symm.flatMap_right _).filter _
  | spanned inner ih => exact ⟨trivial, (ih lawful isPlain reads.1).2⟩
  | binder what inner ih =>
    obtain ⟨found, middle, last, ⟨isValue, passes⟩, reads, defines⟩ := reads
    exact ⟨trivial, .binds isValue passes (ih lawful isPlain reads).2 defines⟩
  | inScope inner ih =>
    obtain ⟨inside, reads, _, rfl⟩ := reads
    exact ⟨trivial, .inScope (ih lawful isPlain reads).2⟩
  | region kind implicitTerminator =>
    refine ⟨trivial, ?_⟩
    have passage := regions kind implicitTerminator reads
    simpa [leaves, pieces, Piece.flatten] using passage
  | recommended opcode warning inner ih => exact ⟨trivial, (ih lawful isPlain reads).2⟩

/-! ## Regions that are read -/

/-- Modifiers mention no regions. -/
theorem region_not_mem_modifier {a : R} (modifier : Modifier) :
    Mention.region a ∉ mentions modifier.pieces := by
  obtain ⟨rule, argument⟩ := modifier
  cases argument with
  | none => simp [Modifier.pieces]
  | some argument =>
    cases form : rule.argument with
    | none => simp [Modifier.pieces, form]
    | some form =>
      cases argument <;> simp [Modifier.pieces, form, Argument.piece]

theorem forall_region_mem_items {P : R → Prop} {item : Grammar R α} {items : List α}
    (all : ∀ a ∈ items, ∀ inner, Mention.region inner ∈ mentions (item.pieces a) → P inner) :
    ∀ inner, Mention.region inner ∈ (items.map item.pieces).flatMap mentions → P inner := by
  intro inner member
  rw [List.flatMap_map] at member
  obtain ⟨a, inside, here⟩ := List.mem_flatMap.1 member
  exact all a inside inner here

/-- Every region of what is read by a grammar has been read as one. -/
theorem reads_regions {P : R → Prop}
    (regions : ∀ kind implicitTerminator {before after : Stage} {a : R},
      region kind implicitTerminator source before a after → P a)
    {α : Type} (grammar : Grammar R α) {before after : Stage} {a : α}
    (reads : grammar.Reads region source before a after) :
    ∀ inner, Mention.region inner ∈ mentions (grammar.pieces a) → P inner := by
  induction grammar generalizing before after with
  | blank => simp [pieces]
  | punct mark => simp [pieces]
  | word text => simp [pieces]
  | lexeme kind what => simp [pieces]
  | oneOf words what => simp [pieces]
  | name kind => simp [pieces]
  | definition kind => simp [pieces]
  | type => simp [pieces]
  | attributeOf form => simp [pieces]
  | namedAttribute => simp [pieces]
  | trailingAttribute => cases a <;> simp [pieces]
  | seq first second ihFirst ihSecond =>
    obtain ⟨middle, readsFirst, readsSecond⟩ := reads
    intro inner member
    rw [pieces, mentions_append] at member
    rcases List.mem_append.1 member with left | right
    · exact ihFirst readsFirst inner left
    · exact ihSecond readsSecond inner right
  | view as inner ih =>
    obtain ⟨value, reads, rfl⟩ := reads
    rw [pieces_view]
    exact ih reads
  | optional present inner ih =>
    unfold Reads at reads
    split at reads
    · obtain ⟨value, reads, rfl⟩ := reads
      exact ih reads
    · obtain ⟨rfl, rfl⟩ := reads
      simp [pieces]
  | choice isFirst first second ihFirst ihSecond =>
    unfold Reads at reads
    split at reads
    · obtain ⟨value, reads, rfl⟩ := reads
      exact ihFirst reads
    · obtain ⟨value, reads, rfl⟩ := reads
      exact ihSecond reads
  | separated item ih =>
    rw [pieces, mentions_commaed]
    exact forall_region_mem_items (separatedReads_forall ih reads)
  | listed item ih =>
    rw [pieces, mentions_commaed]
    exact forall_region_mem_items (listedReads_forall ih reads)
  | listedWithEllipsis item ih =>
    have all := forall_region_mem_items (listedWithEllipsisReads_forall ih reads)
    obtain ⟨items, ellipsis⟩ := a
    rw [pieces, mentions_commaed, List.flatMap_append]
    cases ellipsis
    · simpa using all
    · simpa using all
  | bracketed separator item ih =>
    obtain ⟨opening, middle, _, reads⟩ := reads
    have all := forall_region_mem_items (bracketedReads_forall ih reads)
    simpa [pieces] using all
  | repeated next item ih =>
    rw [pieces, mentions_commaed]
    exact forall_region_mem_items (repeatedReads_forall ih reads)
  | modifierRun table =>
    intro inner member
    rw [pieces, mentions_flatMap] at member
    obtain ⟨modifier, _, here⟩ := List.mem_flatMap.1 member
    exact absurd here (region_not_mem_modifier modifier)
  | spanned inner ih => exact ih reads.1
  | binder what inner ih =>
    obtain ⟨found, middle, last, _, reads, _⟩ := reads
    simpa [pieces] using ih reads
  | inScope inner ih =>
    obtain ⟨inside, reads, _⟩ := reads
    exact ih reads
  | region kind implicitTerminator => simpa [pieces] using regions kind implicitTerminator reads
  | recommended opcode warning inner ih => exact ih reads

end Grammar

end CirText
