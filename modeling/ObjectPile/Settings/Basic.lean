/-
# Settings

The settings of a pile. They start from `Settings.standard` and change by applying sections; each
option is checked alone, and at the end the constraints between options are.

* `Settings.apply` applies a section.
* `Settings.withMaxMemoryLimit` sets a limit that no section can express.
-/
import ObjectPile.ClassTable
import ObjectPile.Config.Section
import ObjectPile.Settings.AllocationMode
import ObjectPile.Settings.ChunkSizes

namespace ObjectPile

/-- The settings of a pile. -/
structure Settings where
  allocMode : AllocationMode
  /-- How many free chunks a segment remembers on each of its lists. -/
  freeListSize : Nat
  /-- How many segments the pile may have. -/
  maxSegmentLimit : Nat
  /-- The size of each segment in bytes. -/
  segmentSize : Nat
  /-- How many bytes all segments may have together. -/
  maxMemoryLimit : Nat
  chunkSizes : ChunkSizes
  deriving DecidableEq, Repr

namespace Settings

/-- The settings where nothing is configured. -/
def standard : Settings where
  allocMode := .reuseSpace
  freeListSize := 100000
  maxSegmentLimit := 1024
  segmentSize := 67108864
  maxMemoryLimit := maxWord
  chunkSizes := .standard

instance : Inhabited Settings := ⟨standard⟩

/-- The longest payload that fits into a segment. -/
def maxPayloadLength (s : Settings) : Nat := s.segmentSize - headerSize

/-! ## Checks of one option -/

/-- A number of things, possibly none. -/
def count (option : ConfigOption) (n : Int) : Except ConfigError Nat :=
  if n < 0 then .error (.invalidValue option (Decimal.intText n) .negative) else .ok n.toNat

/-- A number of things, at least one. -/
def positive (option : ConfigOption) (n : Int) : Except ConfigError Nat :=
  if n ≤ 0 then .error (.invalidValue option (Decimal.intText n) .notPositive) else .ok n.toNat

/-- A segment size: rounded up to the alignment and within bounds. -/
def segmentSizeOf (n : Int) : Except ConfigError Nat := do
  let size := roundUp (← positive .segmentSize n)
  if minSegmentSize ≤ size ∧ size ≤ maxSegmentSize then
    return size
  else
    throw (.invalidValue .segmentSize (Decimal.intText n) .segmentSizeBounds)

/-- A size in a list of chunk sizes. -/
def chunkSizeOf (n : Int) : Except ConfigError Nat :=
  if n < 0 then .error (.invalidValue .freeChunkSizes (Decimal.intText n) .negativeClass)
  else .ok n.toNat

/-- Chunk sizes in either spelling. -/
def chunkSizesOf : SizesSpec → Except ConfigError ChunkSizes
  | .text s => ChunkSizes.ofText s
  | .list ns => do ChunkSizes.ofList (← ns.mapM chunkSizeOf)

/-- The value of an option, or the value it has already. -/
def setting {α β : Type} (read : α → Except ConfigError β) (current : β) :
    Option α → Except ConfigError β
  | none => .ok current
  | some a => read a

/-! ## Checks between options -/

/-- The settings again, if the largest class fits into a segment and one segment into the memory
limit. Rounding up a class above 2 ^ 64 - 16 leaves the words of 64 bits. Such classes are outside of
what this check describes; here they are refused as too large, and `Settings.checkedValidate` is the
check that stops at them. -/
def validate (s : Settings) : Except ConfigError Settings :=
  if s.segmentSize < satAdd (roundUp s.chunkSizes.largest) headerSize then
    .error (.invalidValue .freeChunkSizes s.chunkSizes.text (.classTooLarge s.segmentSize))
  else if s.maxMemoryLimit < s.segmentSize then
    .error (.invalidValue .maxMemoryLimit (Decimal.text s.maxMemoryLimit)
      (.belowSegmentSize s.segmentSize))
  else .ok s

/-- The settings with every option that a section gives, or the first error in the order of the
fields. -/
def apply (s : Settings) (options : ConfigSection) : Except ConfigError Settings := do
  let allocMode ← setting AllocationMode.ofText s.allocMode options.allocMode
  let freeListSize ← setting (count .freeListSize) s.freeListSize options.freeListSize
  let maxSegmentLimit ←
    setting (positive .maxSegmentLimit) s.maxSegmentLimit options.maxSegmentLimit
  let segmentSize ← setting segmentSizeOf s.segmentSize options.segmentSize
  let maxMemoryLimit ← setting (positive .maxMemoryLimit) s.maxMemoryLimit options.maxMemoryLimit
  let chunkSizes ← setting chunkSizesOf s.chunkSizes options.freeChunkSizes
  validate ⟨allocMode, freeListSize, maxSegmentLimit, segmentSize, maxMemoryLimit, chunkSizes⟩

/-- The settings with another memory limit. -/
def withMaxMemoryLimit (s : Settings) (bytes : Nat) : Except ConfigError Settings :=
  if bytes = 0 then .error (.invalidValue .maxMemoryLimit "0" .notPositive)
  else validate { s with maxMemoryLimit := bytes }

end Settings

end ObjectPile
