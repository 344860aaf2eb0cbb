/-
# Events

What piles and registries report about themselves while they work.
-/
import ObjectPile.Pointer
import ObjectPile.Settings.AllocationMode

namespace ObjectPile

/-- How much a report matters. -/
inductive Level where
  | trace
  | debug
  | info
  | warn
  deriving DecidableEq, Repr, Inhabited

def Level.name : Level → String
  | .trace => "TRACE"
  | .debug => "DEBUG"
  | .info => "INFO"
  | .warn => "WARN"

/-- A detail of a report. -/
inductive Detail where
  | number (n : Nat)
  | text (s : String)
  deriving DecidableEq, Repr, Inhabited

/-- A report. Most name the pile they are about. -/
inductive Event where
  | put (pile : String) (pointer : Pointer) (length : Nat)
  | delete (pile : String) (pointer : Pointer)
  | outOfSpace (pile : String) (requested segmentCount allocatedBytes : Nat)
  | newSegment (pile : String) (segment segmentCount : Nat)
  | releasedSegment (pile : String) (segment : Nat)
  | purged (pile : String) (released : Nat)
  | started (pile : String) (mode : AllocationMode) (segmentSize : Nat)
  | stopped (pile : String) (released : Nat)
  | configured (pile : String) (mode : AllocationMode) (segmentSize : Nat)
  | registryConfigured (named : Nat)
  deriving DecidableEq, Repr, Inhabited

namespace Event

def level : Event → Level
  | .put .. | .delete .. => .trace
  | .outOfSpace .. => .warn
  | .started .. | .stopped .. => .info
  | .newSegment .. | .releasedSegment .. | .purged .. | .configured .. | .registryConfigured .. =>
    .debug

def message : Event → String
  | .put .. => "put"
  | .delete .. => "delete"
  | .outOfSpace .. => "pile is out of space"
  | .newSegment .. => "allocated new segment"
  | .releasedSegment .. => "released empty segment"
  | .purged .. => "pile purged"
  | .started .. => "pile started"
  | .stopped .. => "pile stopped"
  | .configured .. => "pile configured"
  | .registryConfigured .. => "pile registry configured"

/-- The details of a report with their names. -/
def details : Event → List (String × Detail)
  | .put pile pointer length =>
    [("pile", .text pile), ("pointer", .text pointer.text), ("len", .number length)]
  | .delete pile pointer => [("pile", .text pile), ("pointer", .text pointer.text)]
  | .outOfSpace pile requested segmentCount allocatedBytes =>
    [("pile", .text pile), ("requested", .number requested),
      ("segment_count", .number segmentCount), ("allocated_memory_bytes", .number allocatedBytes)]
  | .newSegment pile segment segmentCount =>
    [("pile", .text pile), ("segment", .number segment), ("segment_count", .number segmentCount)]
  | .releasedSegment pile segment => [("pile", .text pile), ("segment", .number segment)]
  | .purged pile released => [("pile", .text pile), ("released_segments", .number released)]
  | .started pile mode segmentSize =>
    [("pile", .text pile), ("alloc_mode", .text mode.name), ("segment_size", .number segmentSize)]
  | .stopped pile released => [("pile", .text pile), ("released_segments", .number released)]
  | .configured pile mode segmentSize =>
    [("pile", .text pile), ("alloc_mode", .text mode.name), ("segment_size", .number segmentSize)]
  | .registryConfigured named => [("named_piles", .number named)]

end Event

end ObjectPile
