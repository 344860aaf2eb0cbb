/-
# Releasing

A live chunk that is released becomes a free one. Where speed is favoured it is put on its list as
it is. Where space is reused it is first merged with the free chunks on both sides, and if it then
ends at the bump cursor the cursor moves back over it.
-/
import ObjectPile.Segment.FreeList

namespace ObjectPile.Segment

/-- Bytes that are becoming free, and the segment without the free chunks merged into them. -/
structure Merge where
  segment : Segment
  start : Nat
  size : Nat
  deriving Inhabited

/-- Merges with the chunk that follows, if that is free. -/
def Merge.withNext (m : Merge) : Merge :=
  let next := m.start + m.size
  if next < m.segment.bump ∧ m.segment.isFree next = true then
    let nextSize := m.segment.chunkSize next
    ⟨(m.segment.unlink next).mark next false, m.start, m.size + nextSize⟩
  else m

/-- Merges with the chunk that precedes, if that is free. -/
def Merge.withPrevious (m : Merge) : Merge :=
  match m.segment.startBefore? m.start with
  | none => m
  | some previous =>
    if m.segment.isFree previous = true then
      let previousSize := m.segment.chunkSize previous
      ⟨(m.segment.unlink previous).mark m.start false, previous, m.size + previousSize⟩
    else m

/-- Returns the bytes: behind the cursor if they end at it, else as a free chunk. -/
def Merge.finish (m : Merge) (policy : AllocationPolicy) : Segment :=
  if m.start + m.size = m.segment.bump then
    { m.segment.mark m.start false with bump := m.start }
  else m.segment.addFree policy m.start m.size

/-- Frees a live chunk. -/
def release (s : Segment) (policy : AllocationPolicy) (chunk : LiveChunk) : Segment :=
  let s := { s with liveCount := s.liveCount - 1 }
  match policy.mode with
  | .favorSpeed => s.addFree policy chunk.offset chunk.size
  | .reuseSpace =>
    let merge : Merge := ⟨s, chunk.offset, chunk.size⟩
    merge.withNext.withPrevious.finish policy

end ObjectPile.Segment
