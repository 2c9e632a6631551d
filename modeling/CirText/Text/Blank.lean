/-!
# Blank and line-breaking characters

`isBlank` is the White_Space property of Unicode: the characters that separate tokens. `isLineBreak`
singles out the characters after which a new line starts; a carriage return directly followed by a
line feed counts as one break, which is the business of whoever counts lines.
-/

namespace CirText.Text

/-- Whether the character has the White_Space property. -/
def isBlank (c : Char) : Bool :=
  let code := c.toNat
  (0x09 ≤ code && code ≤ 0x0D) || code == 0x20 || code == 0x85 || code == 0xA0 || code == 0x1680 ||
    (0x2000 ≤ code && code ≤ 0x200A) || code == 0x2028 || code == 0x2029 || code == 0x202F ||
    code == 0x205F || code == 0x3000

/-- Whether a line ends with the character: line feed, vertical tab, form feed, carriage return,
next line, line separator or paragraph separator. -/
def isLineBreak (c : Char) : Bool :=
  let code := c.toNat
  (0x0A ≤ code && code ≤ 0x0D) || code == 0x85 || code == 0x2028 || code == 0x2029

end CirText.Text
