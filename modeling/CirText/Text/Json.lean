/-!
# JSON documents

Documents of strings, numbers, arrays and objects, and their indented layout: one member a line, two
spaces a level, and brackets without content closed at once. In a string the quote, the backslash
and the control characters are escaped; everything else stands for itself.
-/

namespace CirText.Text

/-- A JSON document without fractions, truth values and null. -/
inductive Json where
  /-- A natural number. -/
  | number (n : Nat)
  /-- A string. -/
  | string (s : String)
  /-- An array. -/
  | array (items : List Json)
  /-- An object with its members in order. -/
  | object (members : List (String × Json))

namespace Json

/-- The two lower-case hexadecimal digits of a byte. -/
def byteDigits (n : Nat) : List Char :=
  [Nat.digitChar (n / 16), Nat.digitChar (n % 16)]

/-- A character as it is written in a string. -/
def escapeChar (c : Char) : List Char :=
  if c = '"' then ['\\', '"']
  else if c = '\\' then ['\\', '\\']
  else if c = '\x08' then ['\\', 'b']
  else if c = '\t' then ['\\', 't']
  else if c = '\n' then ['\\', 'n']
  else if c = '\x0c' then ['\\', 'f']
  else if c = '\r' then ['\\', 'r']
  else if c.toNat < 0x20 then ['\\', 'u', '0', '0'] ++ byteDigits c.toNat
  else [c]

/-- A string as it is written in a document. -/
def quote (s : String) : String :=
  String.ofList ('"' :: s.toList.flatMap escapeChar ++ ['"'])

/-- A line break followed by the indentation of a level. -/
def newline (level : Nat) : String :=
  "\n" ++ String.ofList (List.replicate (2 * level) ' ')

mutual

/-- The indented layout of a document whose first line starts at the given level. -/
def layout (level : Nat) : Json → String
  | .number n => toString n
  | .string s => quote s
  | .array [] => "[]"
  | .array (item :: items) =>
    "[" ++ newline (level + 1) ++ layout (level + 1) item ++ layoutItems (level + 1) items ++
      newline level ++ "]"
  | .object [] => "\x7b\x7d"
  | .object ((name, value) :: members) =>
    "\x7b" ++ newline (level + 1) ++ quote name ++ ": " ++ layout (level + 1) value ++
      layoutMembers (level + 1) members ++ newline level ++ "\x7d"

/-- The items of an array after the first. -/
def layoutItems (level : Nat) : List Json → String
  | [] => ""
  | item :: items => "," ++ newline level ++ layout level item ++ layoutItems level items

/-- The members of an object after the first. -/
def layoutMembers (level : Nat) : List (String × Json) → String
  | [] => ""
  | (name, value) :: members =>
    "," ++ newline level ++ quote name ++ ": " ++ layout level value ++
      layoutMembers level members

end

/-- The text of a document. -/
def pretty (document : Json) : String :=
  document.layout 0

end Json

end CirText.Text
