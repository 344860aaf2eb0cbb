/-
# Piles

A pile is a store of payloads in segments that it adds and gives up by itself. Its segments stand in
numbered slots; a segment that is given up leaves its slot vacant for the next new one, and vacant
slots at the end are dropped. Each payload is stamped with a generation that is never used again.

An operation that may change a pile answers with an `Outcome`: its result, the pile afterwards and
the events it reported.
-/
import ObjectPile.Pile.Error
import ObjectPile.Pile.Event
import ObjectPile.Segment.Release
import ObjectPile.Segment.Store

namespace ObjectPile

/-- A store of payloads. -/
structure Pile where
  /-- The number that the pile puts into its pointers. -/
  id : Nat
  name : Option String
  settings : Settings
  policy : AllocationPolicy
  state : PileState
  slots : Array (Option Segment)
  /-- The generation of the next payload. -/
  nextGeneration : Nat
  objectCount : Nat
  /-- The length of all payloads together. -/
  utilizedBytes : Nat
  segmentCount : Nat
  /-- The slot that took the last payload. -/
  putHint : Nat
  deriving Inhabited

/-- What an operation comes to. -/
structure Outcome (α : Type) where
  result : Except PileError α
  pile : Pile
  events : List Event

/-- The outcome of an operation that leaves the pile as it is. -/
def Outcome.unchanged {α : Type} (pile : Pile) (result : Except PileError α) : Outcome α :=
  ⟨result, pile, []⟩

namespace Pile

/-- A pile without objects. -/
def ofSettings (id : Nat) (name : Option String) (settings : Settings) (state : PileState) :
    Pile where
  id := id
  name := name
  settings := settings
  policy := .ofSettings settings
  state := state
  slots := #[]
  nextGeneration := 1
  objectCount := 0
  utilizedBytes := 0
  segmentCount := 0
  putHint := 0

/-- A pile with standard settings. -/
def create (id : Nat) (name : Option String) : Pile := ofSettings id name .standard .created

/-- The name by which events and errors call the pile. -/
def displayName (p : Pile) : String := p.name.getD unnamed

/-- The segment in a slot. -/
def slot? (p : Pile) (i : Nat) : Option Segment := p.slots[i]?.join

/-! ## Figures -/

/-- The bytes of all segments. -/
def allocatedBytes (p : Pile) : Nat := satMul p.segmentCount p.settings.segmentSize

/-- The bytes of all segments that hold no payload. -/
def overheadBytes (p : Pile) : Nat := p.allocatedBytes - p.utilizedBytes

/-- The figures of a pile in words. -/
def statsText (p : Pile) : String :=
  s!"{p.objectCount} objects, {p.segmentCount} segments, {p.allocatedBytes} bytes allocated, " ++
    s!"{p.utilizedBytes} utilized, {p.overheadBytes} overhead"

/-! ## Slots -/

/-- The slot for the next new segment: the first vacant one or one more. -/
def vacantSlot (slots : Array (Option Segment)) : Nat :=
  (slots.findIdx? Option.isNone).getD slots.size

/-- Puts a segment into a slot that is vacant or comes after the last one. -/
def occupy (slots : Array (Option Segment)) (i : Nat) (s : Segment) : Array (Option Segment) :=
  if i = slots.size then slots.push (some s) else slots.setIfInBounds i (some s)

/-- Gives up the segment in a slot and drops the vacant slots at the end. -/
def vacate (slots : Array (Option Segment)) (i : Nat) : Array (Option Segment) :=
  (slots.setIfInBounds i none).popWhile Option.isNone

/-- The number of segments in slots. -/
def occupied (slots : Array (Option Segment)) : Nat := slots.countP Option.isSome

end Pile

end ObjectPile
