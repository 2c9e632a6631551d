/-!
# Layouts

A layout is text whose line breaks carry the indentation of the line after them, so that it can be
moved to the right as a whole. Line breaks inside a piece of text are part of the text and do not
move.
-/

namespace CirText

/-- A piece of a layout. -/
inductive Fragment where
  /-- Text as it is. -/
  | text (text : String)
  /-- A line break and the indentation of the next line. -/
  | line (indent : Nat)
deriving DecidableEq, Repr

/-- Text in pieces. -/
abbrev Layout := List Fragment

namespace Layout

/-- A piece of text. -/
def text (text : String) : Layout :=
  [.text text]

/-- A line break. -/
def line (indent : Nat) : Layout :=
  [.line indent]

/-- Layouts with a text between any two of them. -/
def join (separator : String) (layouts : List Layout) : Layout :=
  layouts.intersperse (text separator) |>.flatten

/-- The fragment moved to the right. -/
def shiftFragment (amount : Nat) : Fragment → Fragment
  | .text text => .text text
  | .line indent => .line (indent + amount)

/-- The layout with all its lines but the first moved to the right. -/
def shift (amount : Nat) (layout : Layout) : Layout :=
  layout.map (shiftFragment amount)

/-- A fragment as text. -/
def renderFragment : Fragment → String
  | .text text => text
  | .line indent => String.ofList ('\n' :: List.replicate indent ' ')

/-- The layout as text. -/
def render (layout : Layout) : String :=
  String.join (layout.map renderFragment)

end Layout

end CirText
