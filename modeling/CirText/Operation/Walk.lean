import CirText.Operation.Basic

/-!
# Walking over operations

`Operation.preorder` lists an operation and everything inside it in source order, every operation
before the ones in its regions. A walk goes through the operations in that order and asks of each
what to do next: go on, leave out what is inside it, or stop with an answer.
-/

namespace CirText

/-- What to do after an operation has been visited. -/
inductive Visit (α : Type) where
  /-- Go on with the operations inside it. -/
  | advance
  /-- Go on after it, leaving out the operations inside it. -/
  | skip
  /-- Stop with an answer. -/
  | stop (answer : α)

/-- The course of a walk. -/
structure Tour (α : Type) where
  /-- The operations visited, in order. -/
  visited : List Operation
  /-- The answer with which the walk stopped, if it did. -/
  answer : Option α

/-- Goes through parts one after the other, until one of them stops. -/
def Tour.sequence {α : Type} : List (Tour α) → Tour α
  | [] => ⟨[], none⟩
  | tour :: tours =>
    match tour.answer with
    | some _ => tour
    | none =>
      let rest := sequence tours
      ⟨tour.visited ++ rest.visited, rest.answer⟩

namespace Operation

/-- The operation and all operations inside it in source order. -/
def preorder (op : Operation) : List Operation :=
  op :: op.children.attach.flatMap fun ⟨child, _inside⟩ => child.preorder
termination_by sizeOf op
decreasing_by exact sizeOf_lt_of_mem_children _inside

/-- Walks over the operation and the operations inside it. -/
def walk {α : Type} (visit : Operation → Visit α) (op : Operation) : Tour α :=
  match visit op with
  | .stop answer => ⟨[op], some answer⟩
  | .skip => ⟨[op], none⟩
  | .advance =>
    let inside := Tour.sequence <|
      op.children.attach.map fun ⟨child, _inside⟩ => child.walk visit
    ⟨op :: inside.visited, inside.answer⟩
termination_by sizeOf op
decreasing_by exact sizeOf_lt_of_mem_children _inside

/-- Walks over several operations one after the other. -/
def walkAll {α : Type} (visit : Operation → Visit α) (ops : List Operation) : Tour α :=
  Tour.sequence (ops.map (walk visit))

end Operation

/-- Walks over the operations of a region. -/
def Region.walk {α : Type} (visit : Operation → Visit α) (region : Region Operation) : Tour α :=
  Operation.walkAll visit region.ops

end CirText
