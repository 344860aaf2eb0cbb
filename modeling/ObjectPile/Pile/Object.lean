/-
# Objects

Storing and loading values through a codec.
-/
import ObjectPile.Pile.Put
import ObjectPile.Pile.Read

namespace ObjectPile.Pile

/-- Stores a value under the version of its codec. -/
def putObject {α : Type} (p : Pile) (codec : Codec α) (v : α) : Outcome Pointer :=
  match codec.encode v with
  | .error e => .unchanged p (.error (.codec e))
  | .ok payload => p.put payload codec.version

/-- Loads a value. It is not decoded unless a codec of the same version stored it. -/
def getObject {α : Type} (p : Pile) (codec : Codec α) (pointer : Pointer) :
    Except PileError (Option α) := do
  match ← p.getVersioned pointer with
  | none => return none
  | some (payload, version) =>
    if version ≠ codec.version then throw (.codecMismatch codec.version version)
    else return some (← (codec.decode payload).mapError .codec)

end ObjectPile.Pile
