/-
# Configuration sections

The options that one section of a configuration gives for a pile, as they are spelled. An option
that is absent keeps the value the pile has.
-/
import ObjectPile.Config.Error

namespace ObjectPile

/-- The two spellings of a list of chunk sizes. -/
inductive SizesSpec where
  /-- A text with commas. -/
  | text (s : String)
  | list (ns : List Int)
  deriving DecidableEq, Repr, Inhabited

/-- The options of one pile; `none` for those that are not given. -/
structure ConfigSection where
  /-- The pile that is configured, the unnamed one if absent. -/
  name : Option String := none
  allocMode : Option String := none
  freeListSize : Option Int := none
  maxSegmentLimit : Option Int := none
  segmentSize : Option Int := none
  maxMemoryLimit : Option Int := none
  freeChunkSizes : Option SizesSpec := none
  deriving DecidableEq, Repr, Inhabited

end ObjectPile
