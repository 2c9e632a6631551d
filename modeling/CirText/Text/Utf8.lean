/-!
# Byte offsets into text

Positions in a source unit are byte offsets of its UTF-8 encoding, while text is handled as a list
of characters. This file measures characters in bytes and cuts a piece of text out by offsets. An
offset that lies inside a character, or beyond the end, cuts nothing out.
-/

namespace CirText.Text

/-- The number of bytes that the characters take in UTF-8. -/
def byteSize : List Char → Nat
  | [] => 0
  | c :: rest => c.utf8Size + byteSize rest

/-- The characters after the first `count` bytes, if a character starts or the text ends there. -/
def dropBytes? : List Char → Nat → Option (List Char)
  | rest, 0 => some rest
  | [], _ + 1 => none
  | c :: rest, count + 1 =>
    if c.utf8Size ≤ count + 1 then dropBytes? rest (count + 1 - c.utf8Size) else none

/-- The characters of the first `count` bytes, if a character starts or the text ends there. -/
def takeBytes? : List Char → Nat → Option (List Char)
  | _, 0 => some []
  | [], _ + 1 => none
  | c :: rest, count + 1 =>
    if c.utf8Size ≤ count + 1 then
      (takeBytes? rest (count + 1 - c.utf8Size)).map (c :: ·)
    else
      none

/-- The characters between two byte offsets; empty unless the offsets are in order, inside the text
and between characters. -/
def slice (text : List Char) (start stop : Nat) : List Char :=
  if start ≤ stop then
    ((dropBytes? text start).bind (takeBytes? · (stop - start))).getD []
  else
    []

theorem byteSize_append (left right : List Char) :
    byteSize (left ++ right) = byteSize left + byteSize right := by
  induction left with
  | nil => simp [byteSize]
  | cons c rest ih => simp [byteSize, ih, Nat.add_assoc]

end CirText.Text
