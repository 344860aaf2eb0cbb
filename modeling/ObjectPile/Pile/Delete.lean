/-
# Deleting

Removing an object. A segment is given up as soon as its last object is gone.
-/
import ObjectPile.Pile.Read

namespace ObjectPile.Pile

/-- Gives up the segment in a slot if it has no live chunk. -/
def releaseIfEmpty (p : Pile) (i : Nat) : Pile × List Event :=
  if (p.slot? i).any fun s => s.liveCount == 0 then
    let slots := vacate p.slots i
    let p := { p with slots := slots, segmentCount := p.segmentCount - 1 }
    (p, [.releasedSegment p.displayName i])
  else (p, [])

/-- Removes the object of a chunk in a slot. -/
def deleteIn (p : Pile) (i : Nat) (chunk : LiveChunk) : Pile :=
  let policy := p.policy
  let slots := p.slots.modify i fun slot => slot.map fun s => s.release policy chunk
  { p with
    slots := slots
    objectCount := p.objectCount - 1
    utilizedBytes := p.utilizedBytes - chunk.length }

/-- Removes the object that a pointer names. -/
def delete (p : Pile) (pointer : Pointer) : Outcome Unit :=
  match p.view pointer fun _ chunk => chunk with
  | .error e => .unchanged p (.error e)
  | .ok none => .unchanged p (.ok ())
  | .ok (some chunk) =>
    let (p, events) := (p.deleteIn pointer.segment chunk).releaseIfEmpty pointer.segment
    ⟨.ok (), p, .delete p.displayName pointer :: events⟩

end ObjectPile.Pile
