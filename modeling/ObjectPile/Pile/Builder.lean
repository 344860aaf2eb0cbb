/-
# Building piles

Making a pile with settings that are given in code. Each option that is given passes the same checks
as in a document, with the largest number of a document in place of any larger one; the memory limit
alone may be any word.
-/
import ObjectPile.Pile.Basic

namespace ObjectPile

/-- The options given for a new pile. -/
structure Builder where
  name : Option String := none
  allocMode : Option AllocationMode := none
  freeListSize : Option Nat := none
  maxSegmentLimit : Option Nat := none
  segmentSize : Option Nat := none
  maxMemoryLimit : Option Nat := none
  chunkSizes : Option ChunkSizes := none
  deriving DecidableEq, Repr, Inhabited

namespace Builder

/-- The largest number of a document in place of every larger one. -/
def saturate (n : Nat) : Int := min n maxSigned

/-- The options as a section, all but the memory limit. -/
def options (b : Builder) : ConfigSection where
  name := b.name
  allocMode := b.allocMode.map AllocationMode.name
  freeListSize := b.freeListSize.map saturate
  maxSegmentLimit := b.maxSegmentLimit.map saturate
  segmentSize := b.segmentSize.map saturate
  freeChunkSizes := b.chunkSizes.map fun sizes => .list (sizes.toList.map saturate)

/-- The settings that the options amount to. -/
def settings (b : Builder) : Except ConfigError Settings := do
  let settings ← Settings.standard.apply b.options
  match b.maxMemoryLimit with
  | none => return settings
  | some bytes => settings.withMaxMemoryLimit bytes

/-- The pile with a number and the options given. -/
def build (b : Builder) (id : Nat) : Except ConfigError Pile :=
  b.settings.map fun settings => .ofSettings id b.name settings .configured

end Builder

end ObjectPile
