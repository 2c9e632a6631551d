import CirText.Proofs.Parser.Numbers

/-!
# Walks

A walk visits the operations of a module in source order. It leaves out what is inside an operation
that is to be skipped, and ends behind the first operation at which it is to stop. To say so for all
of a walk at once, every operation is listed with the ones around it: those that a walk can reach
are the ones around which none is skipped.

Numbers ascend in source order, so they tell operations apart: every operation has an entry of its
own among the forms of a module, and can be found by its number.
-/

namespace CirText

/-! ## Visits -/

namespace Visit

variable {α : Type}

/-- Whether what is inside an operation is left out. -/
def isSkip : Visit α → Bool
  | skip => true
  | advance | stop _ => false

/-- The answer with which a walk stops, if it does. -/
def answer? : Visit α → Option α
  | stop answer => some answer
  | advance | skip => none

end Visit

namespace Tour

variable {α : Type}

/-- The tour through a list of operations, up to the first one at which it is to stop. -/
def through (visit : Operation → Visit α) (ops : List Operation) : Tour α where
  visited := ops.takeWhile (fun op => (visit op).answer?.isNone) ++
    (ops.find? fun op => (visit op).answer?.isSome).toList
  answer := ops.findSome? fun op => (visit op).answer?

variable {visit : Operation → Visit α}

theorem through_cons_of_isNone {op : Operation} (goesOn : (visit op).answer? = none)
    (ops : List Operation) :
    through visit (op :: ops) =
      ⟨op :: (through visit ops).visited, (through visit ops).answer⟩ := by
  simp [through, goesOn]

theorem through_cons_of_some {op : Operation} {answer : α}
    (stops : (visit op).answer? = some answer)
    (ops : List Operation) : through visit (op :: ops) = ⟨[op], some answer⟩ := by
  simp [through, stops]

theorem through_append_of_isNone {front : List Operation}
    (goesOn : (through visit front).answer = none)
    (back : List Operation) : through visit (front ++ back) =
      ⟨(through visit front).visited ++ (through visit back).visited,
        (through visit back).answer⟩ := by
  induction front with
  | nil => rfl
  | cons op front ih =>
    cases here : (visit op).answer? with
    | none =>
      rw [through_cons_of_isNone here] at goesOn ⊢
      rw [List.cons_append, through_cons_of_isNone here, ih goesOn, List.cons_append]
    | some answer =>
      rw [through_cons_of_some here] at goesOn
      cases goesOn

theorem through_append_of_some {front : List Operation} {answer : α}
    (stops : (through visit front).answer = some answer) (back : List Operation) :
    through visit (front ++ back) = through visit front := by
  induction front with
  | nil => cases stops
  | cons op front ih =>
    cases here : (visit op).answer? with
    | none =>
      rw [through_cons_of_isNone here] at stops ⊢
      rw [List.cons_append, through_cons_of_isNone here, ih stops]
    | some found => rw [List.cons_append, through_cons_of_some here, through_cons_of_some here]

/-- Tours through lists one after the other are one tour through all of them. -/
theorem sequence_through (lists : List (List Operation)) :
    sequence (lists.map (through visit)) = through visit lists.flatten := by
  induction lists with
  | nil => rfl
  | cons front lists ih =>
    rw [List.map_cons, List.flatten_cons, sequence, ih]
    cases stops : (through visit front).answer with
    | none => exact (through_append_of_isNone stops _).symm
    | some answer => exact (through_append_of_some stops _).symm

end Tour

/-! ## Operations with the ones around them -/

namespace Operation

variable {α : Type}

/-- The operation and all operations inside it in source order, each with the operations around it,
from the inside outwards. -/
def lineages (around : List Operation) (op : Operation) : List (List Operation × Operation) :=
  (around, op) :: op.children.attach.flatMap fun ⟨child, _inside⟩ => child.lineages (op :: around)
termination_by sizeOf op
decreasing_by exact sizeOf_lt_of_mem_children _inside

theorem lineages_eq (around : List Operation) (op : Operation) :
    op.lineages around = (around, op) :: op.children.flatMap (lineages (op :: around)) := by
  rw [lineages]
  simp [List.flatMap_subtype]

theorem map_snd_lineages (around : List Operation) (op : Operation) :
    (op.lineages around).map Prod.snd = op.preorder := by
  induction op using Operation.induction generalizing around with
  | step op ih =>
    rw [lineages_eq, preorder_eq, List.map_cons, List.map_flatMap]
    exact congrArg (op :: ·) (List.flatMap_congr fun child inside => ih child inside (op :: around))

/-- What is around an operation is also around the ones inside it. -/
theorem around_subset_of_mem_lineages {op inner : Operation} {around above : List Operation}
    (member : (above, inner) ∈ op.lineages around) : around ⊆ above := by
  induction op using Operation.induction generalizing around with
  | step op ih =>
    rw [lineages_eq] at member
    rcases List.mem_cons.1 member with same | deeper
    · cases same
      exact List.Subset.refl _
    · obtain ⟨child, isChild, inside⟩ := List.mem_flatMap.1 deeper
      exact List.Subset.trans (List.subset_cons_self op around) (ih child isChild inside)

variable {visit : Operation → Visit α}

/-- Whether a walk can reach an operation, given the ones around it: none of these is skipped. -/
def isReached (visit : Operation → Visit α) (found : List Operation × Operation) : Bool :=
  found.1.all fun above => !(visit above).isSkip

theorem walk_eq (op : Operation) :
    op.walk visit = match visit op with
      | .stop answer => ⟨[op], some answer⟩
      | .skip => ⟨[op], none⟩
      | .advance => ⟨op :: (Tour.sequence (op.children.map (walk visit))).visited,
          (Tour.sequence (op.children.map (walk visit))).answer⟩ := by
  rw [walk]
  cases visit op <;> simp [List.map_subtype]

/-- A walk over an operation is a tour through what can be reached inside it. -/
theorem walk_eq_through {around : List Operation} {op : Operation}
    (reached : isReached visit (around, op) = true) :
    op.walk visit =
      Tour.through visit (((op.lineages around).filter (isReached visit)).map Prod.snd) := by
  induction op using Operation.induction generalizing around with
  | step op ih =>
    rw [walk_eq, lineages_eq, List.filter_cons_of_pos reached, List.map_cons]
    cases action : visit op with
    | stop answer =>
      have stops : (visit op).answer? = some answer := by rw [action, Visit.answer?]
      exact (Tour.through_cons_of_some stops _).symm
    | skip =>
      have goesOn : (visit op).answer? = none := by rw [action, Visit.answer?]
      have none_ : (op.children.flatMap (lineages (op :: around))).filter (isReached visit) =
          [] := by
        rw [List.filter_eq_nil_iff]
        rintro ⟨above, inner⟩ member isReached
        obtain ⟨child, _, inside⟩ := List.mem_flatMap.1 member
        have here := List.all_eq_true.1 isReached op
          (around_subset_of_mem_lineages inside List.mem_cons_self)
        rw [action] at here
        cases here
      rw [none_]
      exact (Tour.through_cons_of_isNone goesOn []).symm
    | advance =>
      have goesOn : (visit op).answer? = none := by rw [action, Visit.answer?]
      have reachedInside : isReached visit (op :: around, op) = true := by
        rw [isReached, List.all_cons, action]
        exact reached
      have each : op.children.map (walk visit) = (op.children.map fun child =>
          ((child.lineages (op :: around)).filter (isReached visit)).map Prod.snd).map
            (Tour.through visit) := by
        rw [List.map_map]
        exact List.map_congr_left fun child inside => ih child inside reachedInside
      have all : (op.children.map fun child =>
          ((child.lineages (op :: around)).filter (isReached visit)).map Prod.snd).flatten =
            ((op.children.flatMap (lineages (op :: around))).filter (isReached visit)).map
            Prod.snd := by
        rw [List.filter_flatMap, List.map_flatMap, List.flatMap_def]
      dsimp only
      rw [each, Tour.sequence_through, all]
      exact (Tour.through_cons_of_isNone goesOn _).symm

end Operation

/-! ## Modules -/

namespace Module

variable {α : Type}

/-- All operations of the module in source order, each with the operations around it. -/
def lineages (unit : Module) : List (List Operation × Operation) :=
  unit.items.flatMap (Operation.lineages [])

theorem map_snd_lineages (unit : Module) : unit.lineages.map Prod.snd = unit.preorder := by
  rw [lineages, preorder, List.map_flatMap]
  exact List.flatMap_congr fun item _ => item.map_snd_lineages []

/-- The operations that a walk can reach: those around which none is skipped. -/
def reached (visit : Operation → Visit α) (unit : Module) : List Operation :=
  (unit.lineages.filter (Operation.isReached visit)).map Prod.snd

/-- A walk is a tour through what it can reach. -/
theorem walk_eq_through (visit : Operation → Visit α) (unit : Module) :
    unit.walk visit = Tour.through visit (unit.reached visit) := by
  have each : unit.items.map (Operation.walk visit) = (unit.items.map fun item =>
      ((item.lineages []).filter (Operation.isReached visit)).map Prod.snd).map
        (Tour.through visit) := by
    rw [List.map_map]
    exact List.map_congr_left fun item _ => Operation.walk_eq_through rfl
  rw [walk, Operation.walkAll, each, Tour.sequence_through, reached, lineages, List.filter_flatMap,
    List.map_flatMap, List.flatMap_def]

/-- If nothing is skipped everything can be reached. -/
theorem reached_of_noSkip {visit : Operation → Visit α} (never : ∀ op, (visit op).isSkip = false)
    (unit : Module) : unit.reached visit = unit.preorder := by
  have all : unit.lineages.filter (Operation.isReached visit) = unit.lineages := by
    refine List.filter_eq_self.2 fun found _ => List.all_eq_true.2 fun above _ => ?_
    rw [never, Bool.not_false]
  rw [reached, all, map_snd_lineages]

/-- The first operation with the number is found. -/
theorem operation?_eq_find (id : Nat) (unit : Module) :
    unit.operation? id = unit.preorder.find? fun op => op.id = id := by
  have never : ∀ op : Operation, (if op.id = id then Visit.stop op else .advance).isSkip =
      false := by
    intro op
    split <;> rfl
  rw [operation?, walk_eq_through, reached_of_noSkip never, Tour.through]
  dsimp only
  induction unit.preorder with
  | nil => rfl
  | cons op ops ih =>
    by_cases same : op.id = id
    · simp [same, Visit.answer?]
    · simpa [same, Visit.answer?] using ih

/-! ## Numbers that ascend -/

/-- A number that is greater than all others comes last. -/
theorem insert_of_greatest {id : Nat} {entries : List (Nat × Form)}
    (greatest : ∀ entry ∈ entries, entry.1 < id)
    (form : Form) : forms.insert id form entries = entries ++ [(id, form)] := by
  induction entries with
  | nil => rfl
  | cons entry entries ih =>
    have less := greatest entry List.mem_cons_self
    rw [forms.insert, if_neg (by omega), if_neg (by omega),
      ih fun other member => greatest other (List.mem_cons_of_mem _ member), List.cons_append]

/-- If numbers ascend every operation has an entry of its own among the forms. -/
theorem forms_of_ordered {unit : Module} (ordered : (unit.preorder.map (·.id)).Pairwise (· < ·)) :
    unit.forms = unit.preorder.map fun op => (op.id, op.form) := by
  have collected : ∀ (ops : List Operation) (entries : List (Nat × Form)),
      (ops.map (·.id)).Pairwise (· < ·) → (∀ entry ∈ entries, ∀ op ∈ ops, entry.1 < op.id) →
      ops.foldl (fun entries op => forms.insert op.id op.form entries) entries =
        entries ++ ops.map fun op => (op.id, op.form) := by
    intro ops
    induction ops with
    | nil => exact fun entries _ _ => (List.append_nil _).symm
    | cons op ops ih =>
      intro entries ordered before
      obtain ⟨first, rest⟩ := List.pairwise_cons.1 ordered
      have last : forms.insert op.id op.form entries = entries ++ [(op.id, op.form)] :=
        insert_of_greatest (fun entry member => before entry member op List.mem_cons_self) op.form
      rw [List.foldl_cons, last, ih _ rest, List.append_assoc, List.map_cons, List.singleton_append]
      intro entry member later inside
      rcases List.mem_append.1 member with old | new
      · exact before entry old later (List.mem_cons_of_mem _ inside)
      · rw [List.mem_singleton.1 new]
        exact first later.id (List.mem_map_of_mem inside)
  rw [forms, collected _ [] ordered (by rintro _ ⟨⟩), List.nil_append]

/-- If numbers ascend an operation is found by its number, and nothing else is. -/
theorem operation?_eq_some_iff {unit : Module}
    (ordered : (unit.preorder.map (·.id)).Pairwise (· < ·)) {id : Nat}
    {op : Operation} : unit.operation? id = some op ↔ op ∈ unit.preorder ∧ op.id = id := by
  rw [operation?_eq_find]
  constructor
  · intro found
    have same := List.find?_some found
    exact ⟨List.mem_of_find?_eq_some found, of_decide_eq_true same⟩
  · rintro ⟨member, rfl⟩
    obtain ⟨front, back, split⟩ := List.append_of_mem member
    rw [split, List.map_append, List.map_cons, List.pairwise_append] at ordered
    rw [split, List.find?_append, List.find?_eq_none.2, Option.none_or,
      List.find?_cons_of_pos (by simp)]
    intro other inFront same
    have less := ordered.2.2 other.id (List.mem_map_of_mem inFront) op.id List.mem_cons_self
    exact absurd (of_decide_eq_true same) (Nat.ne_of_lt less)

end Module

/-- A walk visits the operations of a module in source order, without those inside skipped ones and
up to the first one at which it stops, whose answer it gives. Numbers ascend in that order in every
module that is parsed, whatever adapters are used, so that every operation has an entry among the
forms and is found by its number. If there is no error, they count from zero on. -/
theorem walk_preorder (source : String) (options : Options) :
    (∀ {α : Type} (visit : Operation → Visit α) (unit : Module),
      unit.lineages.map Prod.snd = unit.preorder ∧
      (unit.walk visit).visited =
        (unit.reached visit).takeWhile (fun op => (visit op).answer?.isNone) ++
          ((unit.reached visit).find? fun op => (visit op).answer?.isSome).toList ∧
      (unit.walk visit).answer = (unit.reached visit).findSome? fun op => (visit op).answer?) ∧
    (∀ adapters, ((parse source options adapters).unit.preorder.map (·.id)).Pairwise (· < ·) ∧
      (parse source options adapters).unit.forms =
        (parse source options adapters).unit.preorder.map (fun op => (op.id, op.form)) ∧
      ∀ id op, (parse source options adapters).unit.operation? id = some op ↔
        op ∈ (parse source options adapters).unit.preorder ∧ op.id = id) ∧
    ((parse source options).hasErrors = false → (parse source options).unit.preorder.map (·.id) =
      List.range (parse source options).unit.preorder.length) := by
  refine ⟨fun visit unit => ⟨unit.map_snd_lineages, ?_, ?_⟩, fun adapters => ?_,
    parse_ids_eq_range⟩
  · rw [unit.walk_eq_through, Tour.through]
  · rw [unit.walk_eq_through, Tour.through]
  · have ordered := parse_ids_ordered source options adapters
    exact ⟨ordered, Module.forms_of_ordered ordered,
      fun id op => Module.operation?_eq_some_iff ordered⟩

/-- A function and what it returns with are numbered as they are written. -/
theorem walk_preorder_return :
    (parse "cir.func @f() \x7b cir.return \x7d" {}).hasErrors = false ∧
    (parse "cir.func @f() \x7b cir.return \x7d" {}).unit.preorder.map (·.id) =
      List.range (parse "cir.func @f() \x7b cir.return \x7d" {}).unit.preorder.length ∧
    (parse "cir.func @f() \x7b cir.return \x7d" {}).unit.preorder.length = 2 := by
  have clean : (parse "cir.func @f() \x7b cir.return \x7d" {}).hasErrors = false := by
    cbv
  exact ⟨clean, (walk_preorder "cir.func @f() \x7b cir.return \x7d" {}).2.2 clean, by cbv⟩

end CirText
