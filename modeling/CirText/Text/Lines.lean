import CirText.Text.Blank

/-!
# Lines and columns

A byte offset into a text corresponds to a line and a column, both counted from zero. The line is
the number of line breaks that end at or before the offset, the column the number of characters
between the start of that line and the offset. Carriage return and line feed together are one break.
-/

namespace CirText.Text

/-- A place in a text, counted from zero: lines by breaks, columns by characters. -/
structure Place where
  /-- The number of line breaks before the place. -/
  line : Nat
  /-- The number of characters between the start of the line and the place. -/
  column : Nat
deriving DecidableEq, Repr

namespace Place

/-- The place one character further on the same line. -/
def nextColumn (place : Place) : Place :=
  { place with column := place.column + 1 }

/-- The start of the next line. -/
def nextLine (place : Place) : Place :=
  ⟨place.line + 1, 0⟩

/-- The place reached after `count` bytes of the text when reading starts at `place`. An offset
inside a character counts as the start of that character, one beyond the end as the end. -/
def advance : Place → List Char → Nat → Place
  | place, '\r' :: '\n' :: rest, count =>
    if count = 0 then place
    else if count = 1 then place.nextColumn
    else place.nextLine.advance rest (count - 2)
  | place, c :: rest, count =>
    if count < c.utf8Size then place
    else if isLineBreak c then place.nextLine.advance rest (count - c.utf8Size)
    else place.nextColumn.advance rest (count - c.utf8Size)
  | place, [], _ => place

end Place

/-- The line and column of a byte offset. -/
def placeOf (text : List Char) (offset : Nat) : Place :=
  Place.advance ⟨0, 0⟩ text offset

end CirText.Text
