/-
# Chunk sizes

The ascending sizes that bound the size classes of a pile, and their spelling as a list with commas.

* `ChunkSizes.ofList` accepts a list of sizes that is not empty, holds no zero and ascends.
* `ChunkSizes.ofText` reads the parts between commas, blanks around them apart.
-/
import ObjectPile.Config.Error
import ObjectPile.Decimal.Natural
import ObjectPile.Text.Blank

namespace ObjectPile

/-- The bounds of the size classes, in ascending order. -/
structure ChunkSizes where
  toList : List Nat
  deriving DecidableEq, Repr, Inhabited

namespace ChunkSizes

/-- The sizes that are used where none are given. -/
def standard : ChunkSizes :=
  ⟨[64, 128, 256, 384, 512, 768, 1024, 1536, 2048, 3072, 4096, 8192, 16384, 32768, 65536, 131072]⟩

/-- The sizes in decimal, with a comma and a space between each two. -/
def listText (sizes : List Nat) : String :=
  String.ofList ((sizes.map Decimal.chars).intersperse [',', ' ']).flatten

def text (s : ChunkSizes) : String := listText s.toList

/-- The largest size. -/
def largest (s : ChunkSizes) : Nat := s.toList.getLastD 0

/-- Whether each number is less than the next one. -/
def isAscending : List Nat → Bool
  | m :: n :: ns => m < n && isAscending (n :: ns)
  | _ => true

/-- The sizes in a list, or the first thing that is wrong with it. -/
def ofList (sizes : List Nat) : Except ConfigError ChunkSizes :=
  if sizes = [] then .error (.invalidValue .freeChunkSizes "" .noClasses)
  else if 0 ∈ sizes then .error (.invalidValue .freeChunkSizes (listText sizes) .zeroClass)
  else if isAscending sizes then .ok ⟨sizes⟩
  else .error (.invalidValue .freeChunkSizes (listText sizes) .classesNotAscending)

/-- Reads further digits of a size that is `n` so far; the first character that is no digit or that
makes the size too large decides the error. -/
def readDigits (n : Nat) : List Char → Except SizeError Nat
  | [] => .ok n
  | c :: cs =>
    match Decimal.digitOfChar? c with
    | none => .error .invalidDigit
    | some d => if 10 * n + d ≤ maxWord then readDigits (10 * n + d) cs else .error .tooLarge

/-- Reads a size: digits after an optional plus sign. -/
def readSize (cs : List Char) : Except SizeError Nat :=
  match cs with
  | '+' :: c :: cs => readDigits 0 (c :: cs)
  | cs => readDigits 0 cs

/-- Reads one part of a list of sizes. -/
def readPart (part : List Char) : Except ConfigError Nat :=
  (readSize part).mapError fun e =>
    .invalidValue .freeChunkSizes (String.ofList part) (.classNotANumber e)

/-- The parts of a list with commas, without the blanks around them and without empty ones. -/
def parts (s : String) : List (List Char) :=
  ((Text.splitOn ',' s.toList).map Text.trim).filter fun part => !part.isEmpty

/-- The sizes in a list with commas. -/
def ofText (s : String) : Except ConfigError ChunkSizes := do
  ofList (← (parts s).mapM readPart)

end ChunkSizes

end ObjectPile
