/-
# Writing JSON

The JSON text of a value, without white space. In strings the quote, the backslash and the control
characters are escaped, and every other character stands for itself.
-/
import ObjectPile.Json.Numeral
import ObjectPile.Text.Utf8

namespace ObjectPile.Json

/-- A hexadecimal digit. -/
def hexChar (n : Nat) : Char := if n < 10 then Char.ofNat (48 + n) else Char.ofNat (87 + n)

/-- A character as it is written between quotes. -/
def escape (c : Char) : List Char :=
  if c = '"' then ['\\', '"']
  else if c = '\\' then ['\\', '\\']
  else if c = '\x08' then ['\\', 'b']
  else if c = '\x0c' then ['\\', 'f']
  else if c = '\n' then ['\\', 'n']
  else if c = '\r' then ['\\', 'r']
  else if c = '\t' then ['\\', 't']
  else if c.toNat < 0x20 then ['\\', 'u', '0', '0', hexChar (c.toNat / 16), hexChar (c.toNat % 16)]
  else [c]

/-- A text between quotes. -/
def quoted (s : String) : List Char := '"' :: (s.toList.flatMap escape ++ ['"'])

/-- The parts with a comma between each two. -/
def commaSeparated : List (List Char) → List Char
  | [] => []
  | [part] => part
  | part :: parts => part ++ ',' :: commaSeparated parts

mutual

/-- The text of a value. -/
def chars : Json → List Char
  | .null => ['n', 'u', 'l', 'l']
  | .boolean true => ['t', 'r', 'u', 'e']
  | .boolean false => ['f', 'a', 'l', 's', 'e']
  | .integer n => Decimal.intChars n
  | .double x => doubleChars x
  | .string s => quoted s
  | .array items => '[' :: (commaSeparated (itemChars items) ++ [']'])
  | .object members => '\x7b' :: (commaSeparated (memberChars members) ++ ['\x7d'])

/-- The texts of the items. -/
def itemChars : List Json → List (List Char)
  | [] => []
  | v :: vs => chars v :: itemChars vs

/-- The texts of the members, each a key, a colon and a value. -/
def memberChars : List (String × Json) → List (List Char)
  | [] => []
  | (k, v) :: rest => (quoted k ++ ':' :: chars v) :: memberChars rest

end

/-- The text of a value. -/
def text (v : Json) : String := String.ofList v.chars

/-- The UTF-8 bytes of the text of a value. -/
def bytes (v : Json) : List UInt8 := Text.utf8 v.chars

end ObjectPile.Json
