import CirText.Proofs.Grammar.Mentions

/-!
# Replacing the regions of a body

The grammars of bodies are the same for all types of regions. So when the regions of a body are
replaced, its pieces change in their regions only. Grammars without regions can be carried over to
another type of regions by a function; the bodies of instructions are made of such grammars, and the
ones with regions are gone through one by one.
-/

namespace CirText

variable {R S : Type}

/-- Replaces the region that a piece is. -/
def Piece.map (f : R → S) : Piece R → Piece S
  | .blank => .blank
  | .token kind text => .token kind text
  | .reference used => .reference used
  | .definition defined => .definition defined
  | .type written => .type written
  | .attribute value => .attribute value
  | .region inner => .region (f inner)

theorem Piece.map_intercalate (f : R → S) (separator : List (Piece R))
    (items : List (List (Piece R))) :
    (List.intercalate separator items).map (Piece.map f) =
      List.intercalate (separator.map (Piece.map f)) (items.map (List.map (Piece.map f))) := by
  induction items with
  | nil => rfl
  | cons item items ih =>
    cases items with
    | nil => simp
    | cons next items =>
      simp [List.intercalate_cons_cons, ih]

theorem Piece.map_commaed (f : R → S) (items : List (List (Piece R))) :
    (Piece.commaed items).map (Piece.map f) = Piece.commaed (items.map (List.map (Piece.map f))) :=
  Piece.map_intercalate f _ items

theorem Piece.map_arrange (f : R → S) (separator : Separator) (items : List (List (Piece R))) :
    (Piece.arrange separator items).map (Piece.map f) =
      Piece.arrange separator (items.map (List.map (Piece.map f))) := by
  cases separator with
  | comma => exact Piece.map_commaed f items
  | blank => exact Piece.map_intercalate f _ items

theorem Modifier.map_pieces (f : R → S) (modifier : Modifier) :
    modifier.pieces.map (Piece.map f) = modifier.pieces := by
  obtain ⟨rule, _ | argument⟩ := modifier
  · rfl
  · cases form : rule.argument with
    | none => simp [Modifier.pieces, form, Piece.map, Piece.word]
    | some form =>
      cases argument <;>
        simp [Modifier.pieces, form, Piece.map, Piece.word, Piece.punct, Argument.piece]

/-- Replaces the regions of a payload. -/
def Payload.map (f : R → S) (payload : Payload R) : Payload S :=
  payload.mapMem fun region _ => f region

/-- Replaces the regions of a body. -/
def Body.map (f : R → S) (b : Body R) : Body S :=
  ⟨b.payload.map f, b.extra⟩

namespace Grammar

/-- A grammar without regions for another type of regions. -/
def recast (S : Type) : {α : Type} → Grammar R α → Option (Grammar S α)
  | _, .blank => some .blank
  | _, .punct mark => some (.punct mark)
  | _, .word text => some (.word text)
  | _, .lexeme kind what => some (.lexeme kind what)
  | _, .oneOf words what => some (.oneOf words what)
  | _, .name kind => some (.name kind)
  | _, .definition kind => some (.definition kind)
  | _, .type => some .type
  | _, .attributeOf form => some (.attributeOf form)
  | _, .namedAttribute => some .namedAttribute
  | _, .trailingAttribute => some .trailingAttribute
  | _, .seq first second =>
    match first.recast S, second.recast S with
    | some first, some second => some (.seq first second)
    | _, _ => none
  | _, .view as inner => (inner.recast S).map (.view as)
  | _, .optional present inner => (inner.recast S).map (.optional present)
  | _, .choice isFirst first second =>
    match first.recast S, second.recast S with
    | some first, some second => some (.choice isFirst first second)
    | _, _ => none
  | _, .separated item => (item.recast S).map .separated
  | _, .listed item => (item.recast S).map .listed
  | _, .listedWithEllipsis item => (item.recast S).map .listedWithEllipsis
  | _, .bracketed separator item => (item.recast S).map (.bracketed separator)
  | _, .repeated next item => (item.recast S).map (.repeated next)
  | _, .modifierRun table => some (.modifierRun table)
  | _, .spanned inner => (inner.recast S).map .spanned
  | _, .binder what inner => (inner.recast S).map (.binder what)
  | _, .inScope inner => (inner.recast S).map .inScope
  | _, .region _ _ => none
  | _, .recommended opcode warning inner => (inner.recast S).map (.recommended opcode warning)

/-- A grammar that has been carried over has the same pieces. -/
theorem pieces_of_recast (f : R → S) {α : Type} {grammar : Grammar R α} {other : Grammar S α}
    (same : grammar.recast S = some other) (a : α) :
    other.pieces a = (grammar.pieces a).map (Piece.map f) := by
  induction grammar with
  | seq first second ihFirst ihSecond =>
    rw [recast] at same
    split at same
    · rename_i left right
      cases same
      rw [pieces_seq, pieces_seq, List.map_append, ihFirst left, ihSecond right]
    · cases same
  | view as inner ih =>
    rw [recast] at same
    obtain ⟨inner, left, rfl⟩ := Option.map_eq_some_iff.1 same
    rw [pieces, pieces]
    cases as.read a with
    | none => rfl
    | some x => exact ih left x
  | optional present inner ih =>
    rw [recast] at same
    obtain ⟨inner, left, rfl⟩ := Option.map_eq_some_iff.1 same
    cases a with
    | none => rfl
    | some x => exact ih left x
  | choice isFirst first second ihFirst ihSecond =>
    rw [recast] at same
    split at same
    · rename_i left right
      cases same
      cases a with
      | inl x => exact ihFirst left x
      | inr x => exact ihSecond right x
    · cases same
  | separated item ih =>
    rw [recast] at same
    obtain ⟨item, left, rfl⟩ := Option.map_eq_some_iff.1 same
    rw [pieces, pieces, Piece.map_commaed, List.map_map]
    exact congrArg _ (List.map_congr_left fun x _ => ih left x)
  | listed item ih =>
    rw [recast] at same
    obtain ⟨item, left, rfl⟩ := Option.map_eq_some_iff.1 same
    rw [pieces, pieces, Piece.map_commaed, List.map_map]
    exact congrArg _ (List.map_congr_left fun x _ => ih left x)
  | listedWithEllipsis item ih =>
    rw [recast] at same
    obtain ⟨item, left, rfl⟩ := Option.map_eq_some_iff.1 same
    obtain ⟨items, ellipsis⟩ := a
    rw [pieces, pieces, Piece.map_commaed, List.map_append, List.map_map]
    have inside := List.map_congr_left (l := items) fun x _ => ih left x
    cases ellipsis <;> exact congrArg (fun l => Piece.commaed (l ++ _)) inside
  | bracketed separator item ih =>
    rw [recast] at same
    obtain ⟨item, left, rfl⟩ := Option.map_eq_some_iff.1 same
    rw [pieces, pieces, List.map_cons, List.map_append, Piece.map_arrange, List.map_map]
    have inside := List.map_congr_left (l := a) fun x _ => ih left x
    exact congrArg (fun l => Piece.punct .leftBracket :: (Piece.arrange separator l ++ _)) inside
  | repeated next item ih =>
    rw [recast] at same
    obtain ⟨item, left, rfl⟩ := Option.map_eq_some_iff.1 same
    rw [pieces, pieces, Piece.map_commaed, List.map_map]
    exact congrArg _ (List.map_congr_left fun x _ => ih left x)
  | spanned inner ih | inScope inner ih | recommended opcode warning inner ih =>
    rw [recast] at same
    obtain ⟨inner, left, rfl⟩ := Option.map_eq_some_iff.1 same
    exact ih left _
  | binder what inner ih =>
    rw [recast] at same
    obtain ⟨inner, left, rfl⟩ := Option.map_eq_some_iff.1 same
    rw [pieces_binder, pieces_binder, List.map_cons, ih left]
    rfl
  | region => cases same
  | modifierRun table =>
    cases same
    rw [pieces, pieces, List.map_flatMap]
    exact List.flatMap_congr fun modifier _ => (modifier.map_pieces f).symm
  | trailingAttribute =>
    cases same
    cases a <;> rfl
  | blank | punct | word | lexeme | oneOf | name | definition | type | attributeOf
  | namedAttribute =>
    cases same
    rfl

/-- Whether two grammars give the same pieces when the regions of a body are replaced. -/
def Natural (f : R → S) (grammar : Grammar R (Body R)) (other : Grammar S (Body S)) : Prop :=
  ∀ b, grammar.Builds b → other.pieces (b.map f) = (grammar.pieces b).map (Piece.map f)

theorem Natural.ofView {f : R → S} {α β : Type} {as : View α (Body R)} {other : View β (Body S)}
    {inner : Grammar R α} {twin : Grammar S β} (h : α → β)
    (same : ∀ a, other.build (h a) = (as.build a).map f)
    (pieces : ∀ a, twin.pieces (h a) = (inner.pieces a).map (Piece.map f)) :
    Natural f (view as inner) (view other twin) := by
  rintro _ ⟨a, rfl⟩
  rw [pieces_view, ← same, pieces_view, pieces]

/-- A body without regions. -/
theorem Natural.ofRecast {f : R → S} {α : Type} {as : View α (Body R)} {other : View α (Body S)}
    {inner : Grammar R α} {twin : Grammar S α} (same : ∀ a, other.build a = (as.build a).map f)
    (recast : inner.recast S = some twin) : Natural f (view as inner) (view other twin) :=
  .ofView id same (pieces_of_recast f recast)

/-! ## Bodies with regions -/

section

variable (f : R → S)

attribute [local simp] Piece.map Piece.punct Piece.word

@[simp]
theorem map_trailingAttribute (extra : Option AttributeText) :
    ((trailingAttribute (R := R)).pieces extra).map (Piece.map f) =
      (trailingAttribute (R := S)).pieces extra :=
  (pieces_of_recast f rfl extra).symm

@[simp]
theorem map_optionalAnnotation (written : Option (List TypeText)) :
    (( optionalAnnotation (R := R)).pieces written).map (Piece.map f) =
      ( optionalAnnotation (R := S)).pieces written :=
  (pieces_of_recast f rfl written).symm

@[simp]
theorem map_optionalAnnotations (values : Option (List AttributeText)) :
    ((optionalAnnotations (R := R)).pieces values).map (Piece.map f) =
      (optionalAnnotations (R := S)).pieces values :=
  (pieces_of_recast f rfl values).symm

@[simp]
theorem map_signature (typing : Signature) :
    ((signature (R := R)).pieces typing).map (Piece.map f) = (signature (R := S)).pieces typing :=
  (pieces_of_recast f rfl typing).symm

@[simp]
theorem map_optionalRegion (text : String) (kind : RegionKind) (implicitTerminator : Bool)
    (inner : Option R) :
    ((optionalRegion text kind implicitTerminator).pieces inner).map (Piece.map f) =
      (optionalRegion text kind implicitTerminator).pieces (inner.map f) := by
  cases inner <;> rfl

theorem map_seq {α β α' β' : Type} {first : Grammar R α} {second : Grammar R β}
    {firstTwin : Grammar S α'} {secondTwin : Grammar S β'} {a : α} {b : β} {a' : α'} {b' : β'}
    (left : firstTwin.pieces a' = (first.pieces a).map (Piece.map f))
    (right : secondTwin.pieces b' = (second.pieces b).map (Piece.map f)) :
    (seq firstTwin secondTwin).pieces (a', b') =
      ((seq first second).pieces (a, b)).map (Piece.map f) := by
  rw [pieces_seq, pieces_seq, List.map_append, left, right]

theorem ifElse_natural : Natural f ifElse ifElse := by
  refine .ofView (Prod.map id (Prod.map f (Prod.map (Option.map f) id))) ?_ ?_
  · rintro ⟨cond, thenRegion, _ | elseRegion, extra, result⟩ <;> rfl
  · rintro ⟨cond, thenRegion, elseRegion, extra, result⟩
    simp

theorem ternary_natural : Natural f ternary ternary := by
  refine .ofView (Prod.map (Prod.map id (Prod.map f f)) id) (fun _ => rfl) ?_
  rintro ⟨⟨cond, trueRegion, falseRegion⟩, extra, typing⟩
  simp

theorem scope_natural : Natural f scope scope := by
  refine .ofView (Prod.map f (Prod.map (Option.map f) id)) ?_ ?_
  · rintro ⟨body, _ | cleanup, extra, result⟩ <;> rfl
  · rintro ⟨body, cleanup, extra, result⟩
    simp

theorem switch_natural : Natural f switch switch := by
  refine .ofView (Prod.map id (Prod.map f id)) (fun _ => rfl) ?_
  rintro ⟨cond, body, extra⟩
  simp

theorem caseArm_natural : Natural f caseArm caseArm := by
  refine .ofView (Prod.map id f) (fun _ => rfl) ?_
  rintro ⟨head, body⟩
  exact map_seq f (pieces_of_recast f rfl head) rfl

theorem loop_natural : Natural f loop loop := by
  refine .ofView
    (Prod.map id (Prod.map (Prod.map (Option.map f) (Prod.map f (Option.map f))) id)) ?_ ?_
  · rintro ⟨kind, ⟨_ | cond, body, _ | step⟩, extra, result⟩ <;> rfl
  · rintro ⟨kind, ⟨cond, body, step⟩, extra, result⟩
    cases cond <;> cases step <;> simp [pieces_optional, identifier, colonRegion]

theorem forLoop_natural : Natural f forLoop forLoop := by
  refine .ofView (Prod.map f (Prod.map f (Prod.map f id))) (fun _ => rfl) ?_
  rintro ⟨cond, body, step, extra⟩
  simp [wordRegion]

theorem whileLabeled_natural : Natural f whileLabeled whileLabeled := by
  refine .ofView (Prod.map f (Prod.map f id)) (fun _ => rfl) ?_
  rintro ⟨cond, body, extra⟩
  simp [wordRegion]

theorem whileFluent_natural : Natural f whileFluent whileFluent := by
  refine .ofView (Prod.map f (Prod.map f id)) (fun _ => rfl) ?_
  rintro ⟨cond, body, extra⟩
  simp [wordRegion]

theorem doWhileLabeled_natural : Natural f doWhileLabeled doWhileLabeled := by
  refine .ofView (Prod.map f (Prod.map f id)) (fun _ => rfl) ?_
  rintro ⟨body, cond, extra⟩
  simp [wordRegion]

theorem doWhileFluent_natural : Natural f doWhileFluent doWhileFluent := by
  refine .ofView (Prod.map f (Prod.map f id)) (fun _ => rfl) ?_
  rintro ⟨body, cond, extra⟩
  simp [wordRegion]

theorem await_natural : Natural f await await := by
  refine .ofView (Prod.map (Prod.map id (Prod.map f (Prod.map f f))) id) (fun _ => rfl) ?_
  rintro ⟨⟨kind, ready, suspend, resume⟩, extra⟩
  simp [identifier, colonRegion]

/-- Replaces the region of a handler. -/
def mapHandler (clause : Handler R) : Handler S :=
  { clause with region := f clause.region }

theorem map_handler (clause : Handler R) :
    (handler.pieces clause).map (Piece.map f) = handler.pieces (mapHandler f clause) := by
  obtain ⟨_ | _, handled, region, _ | _⟩ := clause <;> rfl

theorem tryCatch_natural : Natural f tryCatch tryCatch := by
  refine .ofView (Prod.map f (Prod.map (Option.map (List.map (mapHandler f)))
    (Prod.map (Option.map f) id))) ?_ ?_
  · rintro ⟨body, _ | clauses, _ | cleanup, extra⟩ <;>
      simp [Body.map, Payload.map, Payload.mapMem, Compound.mapMem, mapHandler]
  · rintro ⟨body, clauses, cleanup, extra⟩
    have same : (List.map (Piece.map f) ∘ handler.pieces) = handler.pieces ∘ mapHandler f :=
      funext (map_handler f)
    cases clauses
    · simp [pieces_optional]
    · simp [pieces_optional, pieces_bracketed, Piece.map_arrange, same]

theorem func_natural : Natural f func func := by
  refine .ofView (Prod.map id (Prod.map id (Prod.map id (Prod.map id (Prod.map id (Prod.map id
    (Prod.map id (Option.map f)))))))) ?_ ?_
  · rintro ⟨modifiers, defined, parameters, result, traits, annotations, attributes, _ | body⟩ <;>
      rfl
  · rintro ⟨modifiers, defined, parameters, result, traits, annotations, attributes, body⟩
    apply map_seq f (pieces_of_recast f rfl _)
    apply map_seq f (pieces_of_recast f rfl _)
    apply map_seq f (pieces_of_recast f rfl _)
    apply map_seq f (pieces_of_recast f rfl _)
    apply map_seq f (pieces_of_recast f rfl _)
    apply map_seq f (pieces_of_recast f rfl _)
    apply map_seq f (pieces_of_recast f rfl _)
    cases body <;> rfl

theorem map_initializer (init : Initializer R) :
    initializer.pieces (init.mapMem fun region _ => f region) =
      (initializer.pieces init).map (Piece.map f) := by
  cases init with
  | constructed itsType ctor dtor => cases dtor <;> rfl
  | destructed itsType dtor => rfl
  | given value => rfl

theorem global_natural : Natural f global global := by
  refine .ofView (Prod.map id (Prod.map id (Prod.map id (Prod.map
    (Option.map fun init => init.mapMem fun region _ => f region) id)))) ?_ ?_
  · rintro ⟨visibility, modifiers, defined, _ | init, result, annotations, extra⟩
    · rfl
    · rfl
  · rintro ⟨visibility, modifiers, defined, init, rest⟩
    apply map_seq f (pieces_of_recast f rfl _)
    apply map_seq f (pieces_of_recast f rfl _)
    apply map_seq f (pieces_of_recast f rfl _)
    apply map_seq f
    · cases init with
      | none => rfl
      | some init => exact congrArg (_ :: _ :: _ :: ·) (map_initializer f init)
    · exact pieces_of_recast f rfl _

end

theorem body_natural (f : R → S) (opcode : Opcode) (form : Form) :
    Natural f (body opcode form) (body opcode form) := by
  unfold body
  split
  all_goals first
    | exact .ofRecast (fun _ => rfl) rfl
    | exact ifElse_natural f
    | exact ternary_natural f
    | exact scope_natural f
    | exact switch_natural f
    | exact caseArm_natural f
    | exact loop_natural f
    | exact forLoop_natural f
    | exact whileLabeled_natural f
    | exact whileFluent_natural f
    | exact doWhileLabeled_natural f
    | exact doWhileFluent_natural f
    | exact await_natural f
    | exact tryCatch_natural f
    | exact func_natural f
    | exact global_natural f

end Grammar

end CirText
