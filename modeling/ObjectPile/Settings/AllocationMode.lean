/-
# Allocation modes

How a pile treats the memory of deleted objects.
-/
import ObjectPile.Config.Error

namespace ObjectPile

/-- What becomes of freed chunks. -/
inductive AllocationMode where
  /-- A freed chunk is kept for requests of its own class. -/
  | favorSpeed
  /-- A freed chunk is merged with free neighbours, and requests may take a part of it. -/
  | reuseSpace
  deriving DecidableEq, Repr

namespace AllocationMode

instance : Inhabited AllocationMode := ⟨.reuseSpace⟩

def name : AllocationMode → String
  | .favorSpeed => "FavorSpeed"
  | .reuseSpace => "ReuseSpace"

/-- A mode's name without regard to case, dashes and underscores. -/
def normalize (s : String) : String :=
  String.ofList ((s.toList.filter fun c => c != '-' && c != '_').map Char.toLower)

/-- The mode of a name. -/
def ofText (s : String) : Except ConfigError AllocationMode :=
  if normalize s = "favorspeed" then .ok .favorSpeed
  else if normalize s = "reusespace" then .ok .reuseSpace
  else .error (.invalidValue .allocMode s .unknownMode)

end AllocationMode

end ObjectPile
