/-
# Pointers

A pointer names a stored object by its pile, its segment, the place of its chunk in the segment and
the generation with which the chunk was stamped.
-/
namespace ObjectPile

/-- A handle to an object in a pile. -/
structure Pointer where
  pile : Nat
  segment : Nat
  offset : Nat
  generation : Nat
  deriving DecidableEq, Repr, Inhabited

namespace Pointer

/-- The pointer that never names an object. -/
def invalid : Pointer := ⟨0, 0, 0, 0⟩

/-- Whether a chunk can carry the generation of the pointer; zero is the mark of free chunks. -/
def isValid (p : Pointer) : Bool := p.generation != 0

/-- The short text of a pointer. -/
def text (p : Pointer) : String :=
  if p.isValid then s!"{p.pile}/{p.segment}:{p.offset}@{p.generation}" else "<invalid>"

/-- The parts of a pointer with their names. -/
def fields (p : Pointer) : List (String × Nat) :=
  [("pile_id", p.pile), ("segment", p.segment), ("offset", p.offset), ("generation", p.generation)]

/-- The text of a pointer that names its parts, on one line. -/
def describe (p : Pointer) : String :=
  if p.isValid then
    let parts := p.fields.map fun (name, n) => name ++ ": " ++ toString n
    "PilePointer \x7b " ++ ", ".intercalate parts ++ " \x7d"
  else "PilePointer::INVALID"

/-- The text of a pointer that names its parts, on a line each. -/
def describeLines (p : Pointer) : String :=
  if p.isValid then
    let lines := p.fields.map fun (name, n) => "    " ++ name ++ ": " ++ toString n ++ ",\n"
    "PilePointer \x7b\n" ++ String.join lines ++ "\x7d"
  else "PilePointer::INVALID"

end Pointer

end ObjectPile
