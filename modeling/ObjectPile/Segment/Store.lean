/-
# Storing

Finding a place for a payload changes nothing: `Segment.place?` only looks. A place is a free chunk
that is taken off its list or the bytes at the bump cursor. `Segment.storeAt` then takes the place
and writes the chunk.

A request that favours speed takes the first chunk on the list of its own class, or the first large
enough among the first few oversized chunks. A request that reuses space takes the first chunk it
finds on its own list or the list of a larger class, or the first large enough oversized one, and
returns what it does not need as a free chunk.
-/
import ObjectPile.Segment.FreeList

namespace ObjectPile

/-- Where a chunk for a payload is to be had. -/
inductive Placement where
  /-- A free chunk on one of the lists. -/
  | reuse (offset : Nat)
  /-- The bytes at the bump cursor. -/
  | extend (offset : Nat)
  deriving DecidableEq, Repr, Inhabited

def Placement.offset : Placement → Nat
  | .reuse offset => offset
  | .extend offset => offset

namespace Segment

/-- How many oversized chunks a request that favours speed looks at. -/
def oversizedLimit : Nat := 32

/-- The free chunk that serves a request, if there is one. -/
def reusable? (s : Segment) (policy : AllocationPolicy) (request : ChunkRequest) : Option Nat :=
  let oversized := policy.classes.oversized
  match policy.mode with
  | .favorSpeed =>
    if request.list = oversized then
      s.findFit? request.chunkSize oversizedLimit (s.freeList oversized).head
    else (s.freeList request.list).head
  | .reuseSpace =>
    match s.firstHead? request.list (oversized - request.list) with
    | some offset => some offset
    | none => s.findFit? request.chunkSize maxWord (s.freeList oversized).head

/-- The place for a request, if the segment has one. -/
def place? (s : Segment) (policy : AllocationPolicy) (request : ChunkRequest) : Option Placement :=
  match s.reusable? policy request with
  | some offset => some (.reuse offset)
  | none => if s.bump + request.chunkSize ≤ s.size then some (.extend s.bump) else none

/-- Takes a place; also gives the size of the chunk there. -/
def take (s : Segment) (policy : AllocationPolicy) (request : ChunkRequest) :
    Placement → Segment × Nat
  | .extend offset =>
    ({ s with bump := offset + request.chunkSize }.mark offset true, request.chunkSize)
  | .reuse offset =>
    let available := s.chunkSize offset
    let s := s.unlink offset
    match policy.mode with
    | .favorSpeed => (s, available)
    | .reuseSpace =>
      let remainder := available - request.chunkSize
      if policy.classes.smallestChunk ≤ remainder then
        let rest := offset + request.chunkSize
        ((s.mark rest true).addFree policy rest remainder, request.chunkSize)
      else (s, available)

/-- Takes a place and stores a payload there. -/
def storeAt (s : Segment) (policy : AllocationPolicy) (request : ChunkRequest)
    (placement : Placement) (payload : List UInt8) (version : CodecVersion) (generation : Nat) :
    Segment :=
  let offset := placement.offset
  let (s, size) := s.take policy request placement
  let s := s.writeHeader offset size version payload.length generation
  { s with memory := s.memory.write (offset + headerSize) payload, liveCount := s.liveCount + 1 }

/-- Stores a payload under a generation if the segment has room; gives the offset of its chunk. -/
def store? (s : Segment) (policy : AllocationPolicy) (request : ChunkRequest)
    (payload : List UInt8) (version : CodecVersion) (generation : Nat) : Option (Nat × Segment) :=
  (s.place? policy request).map fun placement =>
    (placement.offset, s.storeAt policy request placement payload version generation)

end Segment

end ObjectPile
