/-
# Lists of free chunks

The lists on which a segment keeps its free chunks, linked through the bytes of the chunks. A chunk
is put on the front of its list and taken off from any place. A list that has its full number of
chunks takes no more; a chunk that finds no place on its list is on none.
-/
import ObjectPile.Segment.Basic

namespace ObjectPile.Segment

/-- Puts the free chunk at an offset on the front of the list for its size, if that has room. -/
def file (s : Segment) (policy : AllocationPolicy) (offset size : Nat) : Segment :=
  let list := policy.classes.listForChunk size
  let l := s.freeList list
  if policy.freeListSize ≤ l.length then
    s.setWord offset lengthField untracked
  else
    let s := s.setWord offset lengthField list
    let s := s.setWord offset nextField (toLink l.head)
    let s := s.setWord offset previousField noChunk
    let s := match l.head with
      | none => s
      | some head => s.setWord head previousField offset
    s.setFreeList list ⟨some offset, l.length + 1⟩

/-- Takes the free chunk at an offset off its list, if it is on one. -/
def unlink (s : Segment) (offset : Nat) : Segment :=
  let list := s.word offset lengthField
  if list = untracked then s
  else
    let next := s.next offset
    let previous := s.previous offset
    let l := s.freeList list
    let head := match previous with
      | none => next
      | some _ => l.head
    let s := match previous with
      | none => s
      | some p => s.setWord p nextField (toLink next)
    let s := match next with
      | none => s
      | some n => s.setWord n previousField (toLink previous)
    let s := s.setWord offset lengthField untracked
    s.setFreeList list ⟨head, l.length - 1⟩

/-- The first chunk of at least `size` bytes among the next `limit` ones of a list. -/
def findFit? (s : Segment) (size : Nat) : Nat → Option Nat → Option Nat
  | 0, _ => none
  | _ + 1, none => none
  | limit + 1, some offset =>
    if size ≤ s.chunkSize offset then some offset else s.findFit? size limit (s.next offset)

/-- The first chunk on the first of `n` lists, from a given one on, that is not empty. -/
def firstHead? (s : Segment) (list : Nat) : Nat → Option Nat
  | 0 => none
  | n + 1 =>
    match (s.freeList list).head with
    | some offset => some offset
    | none => s.firstHead? (list + 1) n

/-- Makes a free chunk of the bytes from an offset on and puts it on its list. -/
def addFree (s : Segment) (policy : AllocationPolicy) (offset size : Nat) : Segment :=
  (s.writeHeader offset size .raw untracked 0).file policy offset size

end ObjectPile.Segment
