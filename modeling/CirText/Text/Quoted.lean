import CirText.Text.Printable

/-!
# Quoted text

A quoted name stands between double quotes. `encode` writes one: the quote, the backslash and the
common control characters have short escapes, any other character that is not printed as itself, or
that would attach to the character before it, is written by its code point in hexadecimal digits
between braces.

`decode` reads the escapes of a string literal. It knows the short escapes and two hexadecimal
digits after `\\x`; a backslash in front of anything else stands for itself.
-/

namespace CirText.Text.Quoted

/-! ## Writing -/

/-- The digits of a number to base sixteen, in lower case and without leading zeros. -/
def hexDigits (n : Nat) : List Char :=
  Nat.toDigits 16 n

/-- A character as it is written between quotes. -/
def encodeChar (c : Char) : List Char :=
  if c = '\x00' then ['\\', '0']
  else if c = '\t' then ['\\', 't']
  else if c = '\r' then ['\\', 'r']
  else if c = '\n' then ['\\', 'n']
  else if c = '"' then ['\\', '"']
  else if c = '\\' then ['\\', '\\']
  else if extendsGrapheme c || !isPrintable c then ['\\', 'u', '{'] ++ hexDigits c.toNat ++ ['}']
  else [c]

/-- The characters between the quotes. -/
def encodeBody (text : List Char) : List Char :=
  text.flatMap encodeChar

/-- The quoted form of a text, quotes included. -/
def encode (text : List Char) : List Char :=
  '"' :: encodeBody text ++ ['"']

/-! ## Reading -/

/-- The value of a hexadecimal digit in either case. -/
def hexValue? (c : Char) : Option Nat :=
  if '0' ≤ c && c ≤ '9' then some (c.toNat - '0'.toNat)
  else if 'a' ≤ c && c ≤ 'f' then some (c.toNat - 'a'.toNat + 10)
  else if 'A' ≤ c && c ≤ 'F' then some (c.toNat - 'A'.toNat + 10)
  else none

/-- The character denoted by at most two characters after `\x`: one or two hexadecimal digits, or a
plus sign and one digit. -/
def hexChar? : List Char → Option Char
  | [a] => (hexValue? a).map Char.ofNat
  | ['+', b] => (hexValue? b).map Char.ofNat
  | [a, b] => do
    let high ← hexValue? a
    let low ← hexValue? b
    return Char.ofNat (16 * high + low)
  | _ => none

/-- The character that a short escape stands for, by the character after the backslash. -/
def shortEscape? (c : Char) : Option Char :=
  if c = '"' then some '"'
  else if c = '\\' then some '\\'
  else if c = 'n' then some '\n'
  else if c = 't' then some '\t'
  else if c = 'r' then some '\r'
  else if c = '0' then some '\x00'
  else none

/-- Replaces the escapes in the characters between the quotes. -/
def decodeBody : List Char → List Char
  | [] => []
  | ['\\'] => ['\\']
  | '\\' :: 'x' :: rest =>
    (match hexChar? (rest.take 2) with
      | some c => [c]
      | none => '\\' :: 'x' :: rest.take 2) ++ decodeBody (rest.drop 2)
  | '\\' :: c :: rest =>
    (match shortEscape? c with
      | some e => [e]
      | none => ['\\', c]) ++ decodeBody rest
  | c :: rest => c :: decodeBody rest
termination_by text => text.length

/-- The text that a quoted form stands for. A text that is not enclosed in quotes is read as it
is, without removing any. -/
def decode (quoted : List Char) : List Char :=
  match quoted with
  | '"' :: rest =>
    if rest.getLast? = some '"' then decodeBody rest.dropLast else decodeBody quoted
  | _ => decodeBody quoted

end CirText.Text.Quoted
