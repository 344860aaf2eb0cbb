/-
# Configuration errors

What can be wrong with settings and with the documents they come from.
-/
import ObjectPile.Size

namespace ObjectPile

/-- The options of a pile that a configuration can set. -/
inductive ConfigOption where
  | allocMode
  | freeListSize
  | maxSegmentLimit
  | segmentSize
  | maxMemoryLimit
  | freeChunkSizes
  deriving DecidableEq, Repr, Inhabited

/-- The key of an option in a document. -/
def ConfigOption.key : ConfigOption → String
  | .allocMode => "alloc-mode"
  | .freeListSize => "free-list-size"
  | .maxSegmentLimit => "max-segment-limit"
  | .segmentSize => "segment-size"
  | .maxMemoryLimit => "max-memory-limit"
  | .freeChunkSizes => "free-chunk-sizes"

/-- The smallest segment there can be. -/
def minSegmentSize : Nat := 65536

/-- The largest segment there can be; offsets and sizes within it fit into 32 bits. -/
def maxSegmentSize : Nat := 2147483648

/-- Why a text is no size. -/
inductive SizeError where
  | invalidDigit
  | tooLarge
  deriving DecidableEq, Repr, Inhabited

def SizeError.message : SizeError → String
  | .invalidDigit => "invalid digit found in string"
  | .tooLarge => "number too large to fit in target type"

/-- What is wrong with the value of an option. -/
inductive Problem where
  | unknownMode
  | negative
  | notPositive
  /-- A segment size that is out of bounds. -/
  | segmentSizeBounds
  | noClasses
  | zeroClass
  | classesNotAscending
  | negativeClass
  | classNotANumber (error : SizeError)
  /-- The largest size class needs more than a segment of this size. -/
  | classTooLarge (segmentSize : Nat)
  /-- The memory limit leaves no room for one segment of this size. -/
  | belowSegmentSize (segmentSize : Nat)
  deriving DecidableEq, Repr, Inhabited

def Problem.message : Problem → String
  | .unknownMode => "expected FavorSpeed or ReuseSpace"
  | .negative => "must not be negative"
  | .notPositive => "must be greater than zero"
  | .segmentSizeBounds => s!"must be between {minSegmentSize} and {maxSegmentSize} bytes"
  | .noClasses => "at least one size class is required"
  | .zeroClass => "size classes must be greater than zero"
  | .classesNotAscending => "size classes must be strictly ascending"
  | .negativeClass => "size classes must not be negative"
  | .classNotANumber error => "size class could not be parsed as an integer: " ++ error.message
  | .classTooLarge n => s!"largest size class does not fit into a segment of {n} bytes"
  | .belowSegmentSize n => s!"must be at least the segment size of {n} bytes"

/-- The name that stands in messages for the pile without a name. -/
def unnamed : String := "default"

/-- An error in the configuration of a pile. -/
inductive ConfigError where
  /-- An option has a value, given as its text, that no pile can use. -/
  | invalidValue (option : ConfigOption) (value : String) (problem : Problem)
  /-- The text is no TOML or a section has the wrong shape. -/
  | malformed
  /-- The path to the sections leads to something that is not a table. -/
  | invalidPath (path : String)
  /-- Two sections configure the pile of this name. -/
  | duplicateSection (name : Option String)
  deriving DecidableEq, Repr, Inhabited

def ConfigError.message : ConfigError → String
  | .invalidValue option value problem =>
    "invalid value '" ++ value ++ "' for '" ++ option.key ++ "': " ++ problem.message
  | .malformed => "pile configuration could not be parsed"
  | .invalidPath path => "configuration path '" ++ path ++ "' does not refer to a table"
  | .duplicateSection name =>
    "more than one configuration section for pile '" ++ name.getD unnamed ++ "'"

end ObjectPile
