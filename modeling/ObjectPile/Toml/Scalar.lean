/-
# Keys, strings and plain scalars

The smallest parts of a TOML text, each with its reader.
-/
import ObjectPile.Text.Blank
import ObjectPile.Toml.Value

namespace ObjectPile.Toml

/-- The value of a digit of a base up to 16. -/
def digit? (base : Nat) (c : Char) : Option Nat :=
  let n := c.toNat
  let d :=
    if '0' ≤ c ∧ c ≤ '9' then n - 48
    else if 'a' ≤ c ∧ c ≤ 'f' then n - 87
    else if 'A' ≤ c ∧ c ≤ 'F' then n - 55
    else base
  if d < base then some d else none

/-! ## Strings -/

/-- The character of a code point in hexadecimal digits. -/
def codePoint? (digits : List Char) : Option Char := do
  let ds ← digits.mapM (digit? 16)
  let n := ds.foldl (fun n d => 16 * n + d) 0
  if n.isValidChar then some (Char.ofNat n) else none

/-- The character that a backslash and this letter stand for. -/
def shortEscape? (c : Char) : Option Char :=
  if c = '"' ∨ c = '\\' then some c
  else if c = 'b' then some '\x08'
  else if c = 'e' then some '\x1b'
  else if c = 'f' then some '\x0c'
  else if c = 'n' then some '\n'
  else if c = 'r' then some '\x0d'
  else if c = 't' then some '\t'
  else none

/-- The number of hexadecimal digits after a backslash and this letter. -/
def escapeWidth? (c : Char) : Option Nat :=
  if c = 'x' then some 2 else if c = 'u' then some 4 else if c = 'U' then some 8 else none

/-- A character in a string other than its quotes and escapes. -/
def isPlain (c : Char) : Bool := !isControl c

/-- Drops the white space and line ends at the front of a text; `some` only if the first line has no
more than white space. -/
def skipFold? (s : List Char) : Option (List Char) := (afterNewline? (skipSpaces s)).map skipBlanks

/-- The end of a string over several lines: three quotes, before which up to two more belong to the
string. Gives the number of those. -/
def closing? (quote : Char) : Reader Nat := fun s =>
  let run := (s.takeWhile (· == quote)).length
  if 3 ≤ run then some (min (run - 3) 2, s.drop (min run 5)) else none

/-- Reads the rest of a string between double quotes; `lines` says whether it may have several
lines. The characters read so far come in reverse. -/
def basicFrom (lines : Bool) (done : List Char) (s : List Char) : Option (String × List Char) :=
  match s with
  | [] => none
  | c :: rest =>
    if c = '"' then
      if lines then
        match closing? '"' (c :: rest) with
        | some (more, rest) => some (String.ofList (done.reverse ++ List.replicate more '"'), rest)
        | none => basicFrom lines ('"' :: done) rest
      else some (String.ofList done.reverse, rest)
    else if c = '\\' then
      match rest with
      | [] => none
      | e :: rest' =>
        match shortEscape? e, escapeWidth? e with
        | some x, _ => basicFrom lines (x :: done) rest'
        | none, some width =>
          match codePoint? (rest'.take width) with
          | some x =>
            if width ≤ rest'.length then basicFrom lines (x :: done) (rest'.drop width) else none
          | none => none
        | none, none =>
          if lines then
            match skipFold? (e :: rest') with
            | some rest'' =>
              if rest''.length ≤ rest'.length then basicFrom lines done rest'' else none
            | none => none
          else none
    else if isPlain c then basicFrom lines (c :: done) rest
    else if lines && (afterNewline? (c :: rest)).isSome then basicFrom lines (c :: done) rest
    else none
termination_by s.length
decreasing_by
  all_goals simp_all only [List.length_cons, List.length_drop]
  all_goals omega

/-- Reads the rest of a string between single quotes, in which nothing is escaped. -/
def literalFrom (lines : Bool) (done : List Char) : Reader String
  | [] => none
  | c :: rest =>
    if c = '\'' then
      if lines then
        match closing? '\'' (c :: rest) with
        | some (more, rest) => some (String.ofList (done.reverse ++ List.replicate more '\''), rest)
        | none => literalFrom lines ('\'' :: done) rest
      else some (String.ofList done.reverse, rest)
    else if isPlain c then literalFrom lines (c :: done) rest
    else if lines && (afterNewline? (c :: rest)).isSome then literalFrom lines (c :: done) rest
    else none

/-- Drops a line end at the very start of a string over several lines. -/
def skipFirstNewline (s : List Char) : List Char := (afterNewline? s).getD s

/-- Reads a string of one of the four kinds. -/
def string? : Reader String
  | '"' :: '"' :: '"' :: s => basicFrom true [] (skipFirstNewline s)
  | '\'' :: '\'' :: '\'' :: s => literalFrom true [] (skipFirstNewline s)
  | '"' :: s => basicFrom false [] s
  | '\'' :: s => literalFrom false [] s
  | _ => none

/-! ## Keys -/

/-- The characters of a key without quotes. -/
def isBare (c : Char) : Bool := c.isAlphanum || c == '_' || c == '-'

/-- Reads one part of a key: bare or a string on one line. -/
def key? : Reader String
  | '"' :: s => basicFrom false [] s
  | '\'' :: s => literalFrom false [] s
  | s =>
    match s.takeWhile isBare with
    | [] => none
    | cs => some (String.ofList cs, s.dropWhile isBare)

/-- Reads the further parts of a dotted key, at most `limit` of them. -/
def keyTail? : Nat → Reader (List String)
  | limit, s =>
    match skipSpaces s with
    | '.' :: rest =>
      match limit with
      | 0 => none
      | limit + 1 => do
        let (part, rest) ← key? (skipSpaces rest)
        let (parts, rest) ← keyTail? limit rest
        return (part :: parts, rest)
    | _ => some ([], s)

/-- The most parts that a dotted key can have. -/
def maxParts : Nat := 80

/-- Reads a key of one or more parts with points between them. -/
def keyPath? : Reader (List String) := fun s => do
  let (part, rest) ← key? s
  let (parts, rest) ← keyTail? (maxParts - 1) rest
  return (part :: parts, rest)

/-! ## Numbers -/

/-- The digits in a row of digits, with single underscores between some of them. -/
def digitRun? (base : Nat) : List Char → Option (List Nat)
  | [] => none
  | [c] => (digit? base c).map ([·])
  | c :: '_' :: rest => do
    let d ← digit? base c
    let ds ← digitRun? base rest
    return d :: ds
  | c :: rest => do
    let d ← digit? base c
    let ds ← digitRun? base rest
    return d :: ds

/-- The digits of a whole number in decimal, which has no leading zeros. -/
def wholeDigits? (cs : List Char) : Option (List Nat) := do
  match ← digitRun? 10 cs with
  | 0 :: _ :: _ => none
  | ds => some ds

/-- Whether a number starts with a minus sign, and the number without its sign. -/
def splitSign : List Char → Bool × List Char
  | '-' :: cs => (true, cs)
  | '+' :: cs => (false, cs)
  | cs => (false, cs)

/-- The value of a row of digits in a base. -/
def ofBase (base : Nat) (ds : List Nat) : Int := (ds.foldl (fun n d => base * n + d) 0 : Nat)

/-- The integer that a text spells. -/
def integer? : List Char → Option Int
  | '0' :: 'x' :: cs => (digitRun? 16 cs).map (ofBase 16)
  | '0' :: 'o' :: cs => (digitRun? 8 cs).map (ofBase 8)
  | '0' :: 'b' :: cs => (digitRun? 2 cs).map (ofBase 2)
  | cs =>
    let (negative, cs) := splitSign cs
    (wholeDigits? cs).map fun ds => if negative then -(ofBase 10 ds) else ofBase 10 ds

/-- Whether a part of a number after an underscore begins with a digit of a base up to 16. -/
def beginsWithDigit (part : List Char) : Bool := part.head?.any fun c => (digit? 16 c).isSome

/-- Whether a part of a number before an underscore ends with a digit of a base up to 16. -/
def endsWithDigit (part : List Char) : Bool := part.getLast?.any fun c => (digit? 16 c).isSome

/-- Whether a text is written like an integer without spelling one, which is noticed only where the
value counts. Such a text is the prefix of a base without digits, or a whole number in decimal with
further parts after underscores. Of those only the characters next to an underscore are digits for
sure, and they can be digits of a larger base. There may be tabs in the last part, but no spaces. -/
def isMisspelt (cs : List Char) : Bool :=
  if cs = ['0', 'x'] ∨ cs = ['0', 'o'] ∨ cs = ['0', 'b'] then true
  else if cs.any fun c => c == '.' || c == 'e' || c == 'E' || c == ' ' then false
  else match Text.splitOn '_' (splitSign cs).2 with
    | whole :: parts =>
      whole != [] && whole.all Char.isDigit && whole.head? != some '0' && parts != [] &&
        parts.all beginsWithDigit && parts.dropLast.all endsWithDigit
    | [] => false

/-- The power of ten after the letter of a float. -/
def power? (cs : List Char) : Option Int :=
  let (negative, cs) := splitSign cs
  (digitRun? 10 cs).map fun ds => if negative then -(ofBase 10 ds) else ofBase 10 ds

def isExponentLetter (c : Char) : Bool := c == 'e' || c == 'E'

/-- The number with a fraction, a power of ten or both that a text spells. -/
def scaled? (cs : List Char) : Option Decimal.Scaled := do
  let mantissa := cs.takeWhile fun c => !isExponentLetter c
  let whole ← wholeDigits? (mantissa.takeWhile (· != '.'))
  let fraction ← match mantissa.dropWhile (· != '.') with
    | [] => some []
    | _ :: ds => digitRun? 10 ds
  let power ← match cs.dropWhile fun c => !isExponentLetter c with
    | [] => some 0
    | _ :: ds => power? ds
  if cs.any fun c => c == '.' || isExponentLetter c then
    some ⟨Decimal.ofDigits (whole ++ fraction), power - fraction.length⟩
  else none

/-- The float that a text spells. -/
def float? (cs : List Char) : Option FloatValue :=
  let (negative, cs) := splitSign cs
  if cs = ['i', 'n', 'f'] then some (.infinite negative)
  else if cs = ['n', 'a', 'n'] then some .notANumber
  else (scaled? cs).map (.finite negative)

/-! ## Scalars without quotes -/

/-- White space, line ends, comments, and what holds tables and arrays together end a word. -/
def endsWord (c : Char) : Bool :=
  isSpace c || ['\n', '\x0d', '#', '=', ',', '[', ']', '\x7b', '\x7d'].contains c

/-- Whether another word follows after white space. -/
def wordFollows (s : List Char) : Bool :=
  match skipSpaces s with
  | [] => false
  | c :: _ => !endsWord c && c != '.' && c != '"' && c != '\''

/-- Splits a text after the words at its front, which belong to one scalar together with the white
space between them. -/
def splitWords : List Char → List Char × List Char
  | [] => ([], [])
  | c :: s =>
    if !endsWord c || (isSpace c && wordFollows s) then
      let (cs, rest) := splitWords s
      (c :: cs, rest)
    else ([], c :: s)

/-- The value that a scalar without quotes spells. -/
def ofScalar? (cs : List Char) : Option Value :=
  if cs = ['t', 'r', 'u', 'e'] then some (.boolean true)
  else if cs = ['f', 'a', 'l', 's', 'e'] then some (.boolean false)
  else
    match integer? cs, Datetime.ofChars? cs with
    | some n, _ => some (.integer n)
    | none, some d => some (.datetime d)
    | none, none => if isMisspelt cs then some .misspelt else (float? cs).map .float

/-- Reads a scalar without quotes. -/
def scalar? : Reader Value := fun s =>
  let (words, rest) := splitWords s
  (ofScalar? words).map fun v => (v, rest)

end ObjectPile.Toml
