/-
# Readers

Readers take something from the front of a TOML text and give what is left of it; a reader answers
`none` where the text has something else. Here are the ones for single characters and for what may
stand between the parts of a text.
-/
import ObjectPile.Decimal.Natural

namespace ObjectPile.Toml

/-- Takes something from the front of a text. -/
abbrev Reader (α : Type) := List Char → Option (α × List Char)

/-- What follows a character that has to come next. -/
def after? (c : Char) : List Char → Option (List Char)
  | [] => none
  | x :: s => if x = c then some s else none

/-- Reads the number in the next `n` decimal digits. -/
def number? (n : Nat) : Reader Nat := fun s => do
  let ds ← (s.take n).mapM Decimal.digitOfChar?
  if ds.length = n then some (Decimal.ofDigits ds, s.drop n) else none

/-! ## White space and comments -/

/-- Spaces and tabs may stand between the parts of a line. -/
def isSpace (c : Char) : Bool := c == ' ' || c == '\t'

/-- Control characters other than the tab stand nowhere but at the end of a line. -/
def isControl (c : Char) : Bool := (c.toNat < 0x20 && c != '\t') || c.toNat == 0x7F

def skipSpaces (s : List Char) : List Char := s.dropWhile isSpace

/-- What follows a line end: a line feed, maybe after a carriage return. -/
def afterNewline? : List Char → Option (List Char)
  | '\n' :: s => some s
  | '\x0d' :: '\n' :: s => some s
  | _ => none

/-- Skips white space and line ends. A carriage return without a line feed is none. -/
def skipBlanks : List Char → List Char
  | '\x0d' :: '\n' :: s => skipBlanks s
  | c :: s => if isSpace c || c == '\n' then skipBlanks s else c :: s
  | [] => []

/-- Skips a comment, if there is one, up to the end of its line. -/
def skipComment? (s : List Char) : Option (List Char) :=
  match s with
  | '#' :: rest =>
    let text := rest.takeWhile fun c => c != '\n' && c != '\x0d'
    if text.any isControl then none else some (rest.dropWhile fun c => c != '\n' && c != '\x0d')
  | _ => some s

/-- Skips white space, comments and line ends; the first argument bounds the number of lines. -/
def skipLines? : Nat → List Char → Option (List Char)
  | 0, s => some s
  | lines + 1, s => do
    let rest ← skipComment? (skipSpaces s)
    match afterNewline? rest with
    | some rest => skipLines? lines rest
    | none => return rest

/-- Skips everything that may stand between the parts of an array or an inline table. -/
def skipAll? (s : List Char) : Option (List Char) := skipLines? s.length s

end ObjectPile.Toml
