import CirText.Grammar.Basic
import CirText.Operation.Basic

/-!
# What follows the keyword of an operation

The keyword decides which operation is read, and in some cases the tokens after it decide in which
form. What follows is the payload of the operation and, in most forms, an optional attribute. The
grammars of these bodies are grouped by what the operations are for.
-/

namespace CirText

/-- What stands after the keyword of an operation. -/
structure Body (R : Type) where
  /-- What the operation does. -/
  payload : Payload R
  /-- The attribute at its end. -/
  extra : Option AttributeText

/-- The form of an operation that was read in a selected form. The form of a memory access is known
only from its types. -/
def Body.form {R : Type} (body : Body R) (selected : Form) : Form :=
  match body.payload with
  | .instruction (.load _ _ types) => types.form
  | .instruction (.store _ _ _ types) => types.form
  | _ => selected

end CirText
