import CirText.Sublanguage.Reader

/-!
# Adapters

The grammar of operations leaves types and attributes to adapters. From a cursor on, an adapter
gives what it has read and the cursor behind it, or an error. The adapters by default recognise
types and attributes by their outer shape.
-/

namespace CirText

/-- How something in an embedded language is read. -/
structure Adapter (α : Type) where
  /-- Reads from a cursor on. -/
  read : List Char → Cursor → Except SublanguageError (α × Cursor)
  /-- What is read has at least one token, and nothing is read backwards. -/
  advances {source : List Char} {cursor after : Cursor} {a : α}
    (found : read source cursor = .ok (a, after)) :
    ∃ count < cursor.rest.length, after = cursor.advance (count + 1)

/-- How the types and attributes of a source unit are read. -/
structure Adapters where
  /-- How types are read. -/
  types : Adapter TypeText
  /-- How attributes of a form are read. -/
  attributes : AttributeForm → Adapter AttributeText
  /-- An attribute is given the form in which it was to be read. -/
  formed {form : AttributeForm} {source : List Char} {cursor after : Cursor} {value : AttributeText}
    (found : (attributes form).read source cursor = .ok (value, after)) : value.form = form

theorem Cursor.advanceTo_eq {cursor : Cursor} {rest : List Token}
    (shorter : rest.length < cursor.rest.length) :
    ∃ count < cursor.rest.length, cursor.advanceTo rest = cursor.advance (count + 1) := by
  refine ⟨cursor.rest.length - rest.length - 1, by omega, ?_⟩
  rw [advanceTo, Nat.sub_add_cancel (Nat.le_sub_of_add_le (Nat.add_comm 1 _ ▸ shorter))]

/-- Types by their outer shape. -/
def Adapter.structuralType : Adapter TypeText where
  read source cursor := cursor.readType source
  advances found := by
    unfold Cursor.readType at found
    split at found
    · cases found
    · rename_i rest _
      cases found
      exact Cursor.advanceTo_eq rest.2

/-- Attributes of a form by their outer shape. -/
def Adapter.structuralAttribute (form : AttributeForm) : Adapter AttributeText where
  read source cursor := cursor.readAttribute source form
  advances found := by
    unfold Cursor.readAttribute at found
    split at found
    · cases found
    · rename_i rest _
      cases found
      exact Cursor.advanceTo_eq rest.2

/-- The adapters by default. -/
def Adapters.structural : Adapters where
  types := .structuralType
  attributes := .structuralAttribute
  formed found := by
    change Cursor.readAttribute _ _ _ = _ at found
    unfold Cursor.readAttribute at found
    split at found
    · cases found
    · cases found
      rfl

namespace Adapters

@[simp]
theorem read_structural_types (source : List Char) (cursor : Cursor) :
    structural.types.read source cursor = cursor.readType source :=
  rfl

@[simp]
theorem read_structural_attributes (form : AttributeForm) (source : List Char) (cursor : Cursor) :
    (structural.attributes form).read source cursor = cursor.readAttribute source form :=
  rfl

end Adapters

end CirText
