/-
# Segments

A segment is one stretch of memory that is carved into chunks. Chunks start at multiples of 16 and
span a multiple of 16 bytes, header included:

* bytes 0 to 3: the size of the chunk; the low four bits hold the codec version of its payload;
* bytes 4 to 7: the length of the payload, or for a free chunk the free list it is on;
* bytes 8 to 15: the generation of the chunk, zero if it is free.

A free chunk that is on a list keeps the offsets of its two neighbours there in the eight bytes
after the header. Everything from the bump cursor on has never been handed out or was returned in
full.
A mark for each 16 bytes says whether a chunk starts there.

`Segment.resolve?` is the only way from a pointer to a chunk: the offset has to carry a mark below
the cursor, and the chunk there the generation of the pointer.
-/
import ObjectPile.CodecVersion
import ObjectPile.Memory
import ObjectPile.Settings.Basic
import ObjectPile.Tape.Marks

namespace ObjectPile

/-- What all segments of a pile have in common. -/
structure AllocationPolicy where
  mode : AllocationMode
  classes : ClassTable
  /-- How many chunks each list of free chunks may hold. -/
  freeListSize : Nat
  segmentSize : Nat
  deriving DecidableEq, Repr, Inhabited

/-- The policy that settings ask for. -/
def AllocationPolicy.ofSettings (s : Settings) : AllocationPolicy where
  mode := s.allocMode
  classes := .ofSizes s.chunkSizes.toList
  freeListSize := s.freeListSize
  segmentSize := s.segmentSize

/-- The first chunk of a list of free chunks and the number of chunks on it. -/
structure FreeList where
  head : Option Nat := none
  length : Nat := 0
  deriving DecidableEq, Repr, Inhabited

/-- A chunk that a pointer has been found to name. -/
structure LiveChunk where
  offset : Nat
  /-- Its size, header included. -/
  size : Nat
  /-- The length of its payload. -/
  length : Nat
  version : CodecVersion
  deriving DecidableEq, Repr, Inhabited

/-- The room for a payload that a live chunk has. -/
def LiveChunk.capacity (chunk : LiveChunk) : Nat := chunk.size - headerSize

/-- A stretch of memory and the state of its chunks. -/
structure Segment where
  size : Nat
  memory : Memory
  /-- The bump cursor. -/
  bump : Nat
  /-- Which units of 16 bytes a chunk, live or free, starts at. -/
  starts : Marks
  freeLists : Array FreeList
  liveCount : Nat
  deriving Inhabited

namespace Segment

/-! ## Words of a chunk -/

/-- Where the size of a chunk is kept. -/
def sizeField : Nat := 0

/-- Where the length of the payload is kept, or the list a free chunk is on. -/
def lengthField : Nat := 4

/-- Where the generation is kept. -/
def generationField : Nat := 8

/-- Where a free chunk keeps the chunk after it on its list. -/
def nextField : Nat := 16

/-- Where a free chunk keeps the chunk before it on its list. -/
def previousField : Nat := 20

/-- The link of a free chunk that has no neighbour on that side. -/
def noChunk : Nat := 0xFFFFFFFF

/-- In place of a list, what a free chunk that is on no list carries. -/
def untracked : Nat := 0xFFFFFFFF

/-- A word of four bytes of the chunk at an offset. -/
def word (s : Segment) (offset field : Nat) : Nat := s.memory.word 4 (offset + field)

/-- Writes a word of four bytes of the chunk at an offset. -/
def setWord (s : Segment) (offset field n : Nat) : Segment :=
  { s with memory := s.memory.setWord 4 (offset + field) n }

/-- The size of the chunk at an offset. -/
def chunkSize (s : Segment) (offset : Nat) : Nat := s.word offset sizeField / 16 * 16

/-- The codec version of the chunk at an offset. -/
def chunkVersion (s : Segment) (offset : Nat) : CodecVersion := .ofBits (s.word offset sizeField)

/-- The generation of the chunk at an offset. -/
def generation (s : Segment) (offset : Nat) : Nat := s.memory.word 8 (offset + generationField)

/-- Whether the chunk at an offset is free. -/
def isFree (s : Segment) (offset : Nat) : Bool := s.generation offset == 0

/-- The chunk that a link leads to. -/
def ofLink (n : Nat) : Option Nat := if n = noChunk then none else some n

/-- The link that leads to a chunk. -/
def toLink (chunk : Option Nat) : Nat := chunk.getD noChunk

/-- The chunk after the one at an offset on its list. -/
def next (s : Segment) (offset : Nat) : Option Nat := ofLink (s.word offset nextField)

/-- The chunk before the one at an offset on its list. -/
def previous (s : Segment) (offset : Nat) : Option Nat := ofLink (s.word offset previousField)

/-- Writes the header of a chunk. -/
def writeHeader (s : Segment) (offset size : Nat) (version : CodecVersion)
    (length generation : Nat) : Segment :=
  let memory := s.memory.setWord 4 (offset + sizeField) (size + version.tag.val)
  let memory := memory.setWord 4 (offset + lengthField) length
  { s with memory := memory.setWord 8 (offset + generationField) generation }

/-! ## Marks -/

/-- Whether a chunk starts at an offset, which is a multiple of 16. -/
def isStart (s : Segment) (offset : Nat) : Bool := s.starts.get (offset / 16)

/-- Sets or clears the mark of an offset. -/
def mark (s : Segment) (offset : Nat) (isStart : Bool) : Segment :=
  { s with starts := s.starts.set (offset / 16) isStart }

/-- The start of the last chunk before an offset. -/
def startBefore? (s : Segment) (offset : Nat) : Option Nat :=
  (s.starts.last? (offset / 16)).map (· * 16)

/-! ## Whole segments -/

/-- A segment that nothing has been stored in. -/
def empty (policy : AllocationPolicy) : Segment where
  size := policy.segmentSize
  memory := .empty
  bump := 0
  starts := .empty
  freeLists := Array.replicate policy.classes.listCount {}
  liveCount := 0

/-- A list of free chunks. -/
def freeList (s : Segment) (list : Nat) : FreeList := s.freeLists.getD list {}

/-- Replaces a list of free chunks. -/
def setFreeList (s : Segment) (list : Nat) (l : FreeList) : Segment :=
  { s with freeLists := s.freeLists.setIfInBounds list l }

/-- The live chunk at an offset, if it was stamped with this generation. -/
def resolve? (s : Segment) (offset generation : Nat) : Option LiveChunk :=
  if generation ≠ 0 ∧ offset % 16 = 0 ∧ offset < s.bump ∧ s.isStart offset = true ∧
      s.generation offset = generation then
    some ⟨offset, s.chunkSize offset, s.word offset lengthField, s.chunkVersion offset⟩
  else none

/-- The payload of a live chunk. -/
def payload (s : Segment) (chunk : LiveChunk) : List UInt8 :=
  s.memory.read (chunk.offset + headerSize) chunk.length

end Segment

end ObjectPile
