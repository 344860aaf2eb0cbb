/-
# Putting

Storing a payload. The segments are asked in turn, beginning with the one that took the last
payload; after a second such round and a last one from the first slot on, a new segment is added if
the limits allow it.
-/
import ObjectPile.Pile.Basic

namespace ObjectPile.Pile

/-- The slots in turn, beginning with the one that took the last payload. -/
def searchOrder (p : Pile) : List Nat :=
  (List.range p.slots.size).map fun k => (p.putHint % p.slots.size + k) % p.slots.size

/-- The place that the segment in a slot has for a request. -/
def roomIn? (p : Pile) (request : ChunkRequest) (i : Nat) : Option (Nat × Placement) :=
  (p.slot? i).bind fun s => (s.place? p.policy request).map fun placement => (i, placement)

/-- The slot and the place for a request, if a segment has one. -/
def findRoom? (p : Pile) (request : ChunkRequest) : Option (Nat × Placement) :=
  let order := p.searchOrder
  match order.findSome? (p.roomIn? request) with
  | some room => some room
  | none =>
    match order.findSome? (p.roomIn? request) with
    | some room => some room
    | none => (List.range p.slots.size).findSome? (p.roomIn? request)

/-- Whether the limits allow one more segment. -/
def canGrow (p : Pile) : Bool :=
  p.segmentCount < p.settings.maxSegmentLimit &&
    p.allocatedBytes + p.settings.segmentSize ≤ p.settings.maxMemoryLimit

/-- The pointer to the payload that is stored next. -/
def nextPointer (p : Pile) (i offset : Nat) : Pointer := ⟨p.id, i, offset, p.nextGeneration⟩

/-- Counts a payload that slot `i` took. -/
def countPut (p : Pile) (i length : Nat) : Pile :=
  { p with
    nextGeneration := p.nextGeneration + 1
    objectCount := p.objectCount + 1
    utilizedBytes := p.utilizedBytes + length
    putHint := i }

/-- Stores a payload in the segment of a slot. -/
def putInSlot (p : Pile) (i : Nat) (placement : Placement) (request : ChunkRequest)
    (payload : List UInt8) (version : CodecVersion) : Outcome Pointer :=
  let pointer := p.nextPointer i placement.offset
  let policy := p.policy
  let slots := p.slots.modify i fun slot => slot.map fun s =>
    s.storeAt policy request placement payload version pointer.generation
  let p := { p with slots := slots }.countPut i request.length
  ⟨.ok pointer, p, [.put p.displayName pointer request.length]⟩

/-- Stores a payload in a new segment. -/
def putInNewSegment (p : Pile) (request : ChunkRequest) (payload : List UInt8)
    (version : CodecVersion) : Outcome Pointer :=
  let i := vacantSlot p.slots
  let pointer := p.nextPointer i 0
  let s := (Segment.empty p.policy).storeAt p.policy request (.extend 0) payload version
    pointer.generation
  let slots := occupy p.slots i s
  let p := { p with slots := slots, segmentCount := p.segmentCount + 1 }.countPut i request.length
  ⟨.ok pointer, p,
    [.put p.displayName pointer request.length, .newSegment p.displayName i p.segmentCount]⟩

/-- Stores a payload with the version of the codec that made it. A pile that is not started answers
with the invalid pointer. -/
def put (p : Pile) (payload : List UInt8) (version : CodecVersion := .raw) : Outcome Pointer :=
  let length := payload.length
  if p.state ≠ .started then .unchanged p (.ok .invalid)
  else if p.settings.maxPayloadLength < length then
    .unchanged p (.error (.payloadTooLarge length p.settings.maxPayloadLength))
  else
    let request := p.policy.classes.classify length
    match p.findRoom? request with
    | some (i, placement) => p.putInSlot i placement request payload version
    | none =>
      if p.canGrow then p.putInNewSegment request payload version
      else
        ⟨.error (.outOfSpace length p.segmentCount p.allocatedBytes), p,
          [.outOfSpace p.displayName length p.segmentCount p.allocatedBytes]⟩

end ObjectPile.Pile
