/-
# Checks on segments

Where the program relies on something that is meant to hold always, it checks it and gives up if it
does not: that a list is one of the segment, that a header and a payload lie inside of it, that a
number fits into its field, that a chunk that is merged is the neighbour. What fails is a `Fault`.
This module writes down the small steps on a segment with these checks, made one after the other on
the segment as it is at that moment.

* `Checked`, `require` : computations that may fail a check.
* `Segment.checkedWriteHeader`, `Segment.checkedFile`, `Segment.checkedUnlink` : the small steps.
* `checkedWriteHeader_eq`, `checkedFile_eq`, `checkedUnlink_eq` : what each step needs for its checks
  to pass, and that it then does what it does without them.
-/
import ObjectPile.Proofs.Links

namespace ObjectPile

/-- What is found not to hold where it is meant to hold always. -/
inductive Fault where
  /-- A list of free chunks is not one of the segment. -/
  | noSuchList
  /-- A header or a payload is not inside the segment. -/
  | outsideSegment
  /-- An offset, a size or a length does not fit into its field of 32 bits. -/
  | tooWide
  /-- A mark is not one of the segment. -/
  | noSuchMark
  /-- A size is not a multiple of the alignment. -/
  | misaligned
  /-- A free chunk is smaller than the smallest one. -/
  | belowSmallest
  /-- A chunk that is taken off a list is not free. -/
  | notFree
  /-- A chunk is taken off a list that has none. -/
  | emptyList
  /-- A free chunk that is found is too small. -/
  | tooSmall
  /-- A chunk that is merged does not end where the other one begins. -/
  | notAdjacent
  /-- A chunk that is released is not live any more. -/
  | notLive
  /-- A chunk is released in a segment without live chunks. -/
  | noLiveChunk
  /-- A payload is not as long as its request says. -/
  | lengthMismatch
  /-- The generation of free chunks is given to a payload. -/
  | zeroGeneration
  /-- A raw buffer is shorter than its payload. -/
  | bufferTooShort
  /-- A new segment has no room for a payload. -/
  | noRoom
  /-- A slot is not one of the table. -/
  | noSuchSlot
  /-- A slot for a new segment is occupied. -/
  | slotTaken
  /-- A segment size that passed its check is zero. -/
  | zeroSegmentSize
  /-- A size of a class exceeds the largest word when it is rounded up. -/
  | overflow
  deriving DecidableEq, Repr

/-- The result of a computation with checks. -/
abbrev Checked (α : Type) := Except Fault α

/-- Checks a condition. -/
def require (c : Prop) [Decidable c] (fault : Fault) : Checked Unit :=
  if c then .ok () else .error fault

@[simp] theorem ok_bind {ε α β : Type} (a : α) (f : α → Except ε β) :
    ((.ok a : Except ε α) >>= f) = f a := rfl

theorem require_eq {c : Prop} [Decidable c] (h : c) (fault : Fault) : require c fault = .ok () :=
  if_pos h

theorem require_bind {α : Type} {c : Prop} [Decidable c] (h : c) (fault : Fault)
    (f : Unit → Checked α) : (require c fault >>= f) = f () := by
  rw [require_eq h, ok_bind]

/-- Checks that a number fits into 32 bits. -/
def narrow (n : Nat) : Checked Nat := do
  require (n < 4294967296) .tooWide
  return n

theorem narrow_eq {n : Nat} (h : n < 4294967296) : narrow n = .ok n := require_bind h ..

namespace Segment

variable {policy : AllocationPolicy} {s : Segment} {offset field size n list : Nat}

/-! ## Bytes, marks and list heads -/

/-- Reads a word of four bytes. -/
def checkedWord (s : Segment) (offset field : Nat) : Checked Nat := do
  require (offset + field + 4 ≤ s.size) .outsideSegment
  return s.word offset field

/-- Writes a word of four bytes. -/
def checkedSetWord (s : Segment) (offset field n : Nat) : Checked Segment := do
  require (offset + field + 4 ≤ s.size) .outsideSegment
  return s.setWord offset field n

/-- Reads the generation of a chunk. -/
def checkedGeneration (s : Segment) (offset : Nat) : Checked Nat := do
  require (offset + generationField + 8 ≤ s.size) .outsideSegment
  return s.generation offset

/-- Writes the generation of a chunk. -/
def checkedSetGeneration (s : Segment) (offset generation : Nat) : Checked Segment := do
  require (offset + generationField + 8 ≤ s.size) .outsideSegment
  return { s with memory := s.memory.setWord 8 (offset + generationField) generation }

/-- Writes a payload. -/
def checkedWrite (s : Segment) (start : Nat) (payload : List UInt8) : Checked Segment := do
  require (start + payload.length ≤ s.size) .outsideSegment
  return { s with memory := s.memory.write start payload }

/-- Reads the size of a chunk. -/
def checkedChunkSize (s : Segment) (offset : Nat) : Checked Nat := do
  return (← s.checkedWord offset sizeField) / 16 * 16

/-- Sets or clears the mark of an offset. -/
def checkedMark (s : Segment) (offset : Nat) (isStart : Bool) : Checked Segment := do
  require (offset / 16 < s.size / 16) .noSuchMark
  return s.mark offset isStart

/-- Reads the head of a list of free chunks. -/
def checkedList (s : Segment) (list : Nat) : Checked FreeList := do
  require (list < s.freeLists.size) .noSuchList
  return s.freeList list

/-- Replaces the head of a list of free chunks. -/
def checkedSetList (s : Segment) (list : Nat) (l : FreeList) : Checked Segment := do
  require (list < s.freeLists.size) .noSuchList
  return s.setFreeList list l

theorem checkedWord_eq (h : offset + field + 4 ≤ s.size) :
    s.checkedWord offset field = .ok (s.word offset field) := require_bind h ..

theorem checkedSetWord_eq (h : offset + field + 4 ≤ s.size) (n : Nat) :
    s.checkedSetWord offset field n = .ok (s.setWord offset field n) := require_bind h ..

theorem checkedGeneration_eq (h : offset + headerSize ≤ s.size) :
    s.checkedGeneration offset = .ok (s.generation offset) := by
  have hroom : offset + generationField + 8 ≤ s.size := by
    unfold headerSize at h
    unfold generationField
    omega
  unfold checkedGeneration
  rw [require_bind hroom]
  rfl

theorem checkedSetGeneration_eq (h : offset + headerSize ≤ s.size) (generation : Nat) :
    s.checkedSetGeneration offset generation =
      .ok { s with memory := s.memory.setWord 8 (offset + generationField) generation } := by
  have hroom : offset + generationField + 8 ≤ s.size := by
    unfold headerSize at h
    unfold generationField
    omega
  unfold checkedSetGeneration
  rw [require_bind hroom]
  rfl

theorem checkedWrite_eq {payload : List UInt8} (h : offset + payload.length ≤ s.size) :
    s.checkedWrite offset payload = .ok { s with memory := s.memory.write offset payload } :=
  require_bind h ..

theorem checkedChunkSize_eq (h : offset + headerSize ≤ s.size) :
    s.checkedChunkSize offset = .ok (s.chunkSize offset) := by
  have hroom : offset + sizeField + 4 ≤ s.size := by
    unfold headerSize at h
    unfold sizeField
    omega
  unfold checkedChunkSize
  rw [checkedWord_eq hroom]
  rfl

theorem checkedMark_eq (h : offset / 16 < s.size / 16) (isStart : Bool) :
    s.checkedMark offset isStart = .ok (s.mark offset isStart) := require_bind h ..

theorem checkedList_eq (h : list < s.freeLists.size) :
    s.checkedList list = .ok (s.freeList list) := require_bind h ..

theorem checkedSetList_eq (h : list < s.freeLists.size) (l : FreeList) :
    s.checkedSetList list l = .ok (s.setFreeList list l) := require_bind h ..

/-! ## Headers -/

/-- Writes the header of a chunk. -/
def checkedWriteHeader (s : Segment) (offset size : Nat) (version : CodecVersion)
    (length generation : Nat) : Checked Segment := do
  require (size % 16 = 0) .misaligned
  let s ← s.checkedSetWord offset sizeField ((← narrow size) + version.tag.val)
  let s ← s.checkedSetWord offset lengthField (← narrow length)
  s.checkedSetGeneration offset generation

theorem checkedWriteHeader_eq (hroom : offset + headerSize ≤ s.size) (hmod : size % 16 = 0)
    (hsize : size < 4294967296) (version : CodecVersion) {length : Nat}
    (hlength : length < 4294967296) (generation : Nat) :
    s.checkedWriteHeader offset size version length generation =
      .ok (s.writeHeader offset size version length generation) := by
  have hroom' := hroom
  unfold headerSize at hroom'
  unfold checkedWriteHeader
  rw [require_bind hmod, narrow_eq hsize, ok_bind, checkedSetWord_eq (by unfold sizeField; omega),
    ok_bind, narrow_eq hlength, ok_bind,
    checkedSetWord_eq (by rw [size_setWord]; unfold lengthField; omega), ok_bind,
    checkedSetGeneration_eq (by rwa [size_setWord, size_setWord])]
  simp only [writeHeader, setWord]

/-! ## Lists of free chunks -/

/-- The list for a free chunk. -/
def checkedListFor (policy : AllocationPolicy) (size : Nat) : Checked Nat := do
  require (policy.classes.smallestChunk ≤ size) .belowSmallest
  return policy.classes.listForChunk size

/-- Writes the link to the chunk before into a chunk, if there is one. -/
def checkedSetPrevious (s : Segment) (chunk : Option Nat) (n : Nat) : Checked Segment :=
  match chunk with
  | none => return s
  | some o => s.checkedSetWord o previousField n

/-- Makes a chunk the one after another on a list, or the head of the list. -/
def checkedSetNext (s : Segment) (list : Nat) (previous next : Option Nat) : Checked Segment :=
  match previous with
  | none => do s.checkedSetList list ⟨next, (← s.checkedList list).length⟩
  | some o => s.checkedSetWord o nextField (toLink next)

/-- Counts a chunk off a list. -/
def checkedCountOff (s : Segment) (list : Nat) : Checked Segment := do
  let l ← s.checkedList list
  require (0 < l.length) .emptyList
  s.checkedSetList list ⟨l.head, l.length - 1⟩

/-- Puts the free chunk at an offset on the front of the list for its size, if that has room. -/
def checkedFile (s : Segment) (policy : AllocationPolicy) (offset size : Nat) :
    Checked Segment := do
  let list ← checkedListFor policy size
  let l ← s.checkedList list
  if policy.freeListSize ≤ l.length then
    s.checkedSetWord offset lengthField untracked
  else
    let s ← s.checkedSetWord offset lengthField (← narrow list)
    let s ← s.checkedSetWord offset nextField (toLink l.head)
    let s ← s.checkedSetWord offset previousField noChunk
    let s ← s.checkedSetPrevious l.head (← narrow offset)
    s.checkedSetList list ⟨some offset, l.length + 1⟩

/-- Takes the free chunk at an offset off its list, if it is on one. -/
def checkedUnlink (s : Segment) (offset : Nat) : Checked Segment := do
  require ((← s.checkedGeneration offset) = 0) .notFree
  let list ← s.checkedWord offset lengthField
  if list = untracked then return s
  else
    let next := ofLink (← s.checkedWord offset nextField)
    let previous := ofLink (← s.checkedWord offset previousField)
    let s ← s.checkedSetNext list previous next
    let s ← s.checkedSetPrevious next (toLink previous)
    let s ← s.checkedSetWord offset lengthField untracked
    s.checkedCountOff list

theorem checkedSetPrevious_eq {chunk : Option Nat}
    (h : ∀ o ∈ chunk, o + headerSize + minCapacity ≤ s.size) (n : Nat) :
    s.checkedSetPrevious chunk n = .ok (s.setPrevious chunk n) := by
  cases chunk with
  | none => rfl
  | some o =>
    have hroom := h o rfl
    unfold headerSize minCapacity at hroom
    exact checkedSetWord_eq (by unfold previousField; omega) n

/-- The links and the lists are written apart. -/
theorem setPrevious_setFreeList (s : Segment) (list : Nat) (l : FreeList) (chunk : Option Nat)
    (n : Nat) : (s.setFreeList list l).setPrevious chunk n =
      (s.setPrevious chunk n).setFreeList list l := by
  cases chunk with
  | none => rfl
  | some o => simp only [setPrevious, setFreeList, setWord]

theorem setWord_setFreeList (s : Segment) (list : Nat) (l : FreeList) (offset field n : Nat) :
    (s.setFreeList list l).setWord offset field n =
      (s.setWord offset field n).setFreeList list l := by
  simp only [setFreeList, setWord]

theorem setFreeList_setFreeList (s : Segment) (list : Nat) (l l' : FreeList) :
    (s.setFreeList list l).setFreeList list l' = s.setFreeList list l' := by
  simp [setFreeList]

/-- A list that is replaced by itself stays. -/
theorem setFreeList_self (h : list < s.freeLists.size) :
    s.setFreeList list (s.freeList list) = s := by
  have hsame : s.freeLists.setIfInBounds list (s.freeList list) = s.freeLists := by
    simp [freeList, Array.setIfInBounds, h]
  unfold setFreeList
  rw [hsame]

theorem checkedSetNext_eq (h : list < s.freeLists.size) {previous : Option Nat}
    (hprevious : ∀ o ∈ previous, o + headerSize + minCapacity ≤ s.size) (next : Option Nat) :
    s.checkedSetNext list previous next =
      .ok ((s.setNext previous (toLink next)).setFreeList list
        ⟨if previous = none then next else (s.freeList list).head, (s.freeList list).length⟩) := by
  cases previous with
  | none =>
    unfold checkedSetNext
    simp only [checkedList_eq h, ok_bind, checkedSetList_eq h]
    rfl
  | some o =>
    have hroom := hprevious o rfl
    unfold headerSize minCapacity at hroom
    have hself : (s.setWord o nextField (toLink next)).setFreeList list (s.freeList list) =
        s.setWord o nextField (toLink next) := by
      have h' : list < (s.setWord o nextField (toLink next)).freeLists.size := by simpa using h
      rw [← setFreeList_self h', setFreeList_setFreeList]
      simp only [freeList, freeLists_setWord]
    unfold checkedSetNext
    simp only
    rw [checkedSetWord_eq (by unfold nextField; omega), setNext, if_neg (by simp), hself]

theorem checkedCountOff_eq (h : list < s.freeLists.size) (head : Option Nat) {length : Nat}
    (hpos : 0 < length) : (s.setFreeList list ⟨head, length⟩).checkedCountOff list =
      .ok (s.setFreeList list ⟨head, length - 1⟩) := by
  have h' : list < (s.setFreeList list ⟨head, length⟩).freeLists.size := by
    unfold setFreeList
    rwa [Array.size_setIfInBounds]
  unfold checkedCountOff
  rw [checkedList_eq h', ok_bind, freeList_setFreeList _ _ _ h, if_pos rfl, require_bind hpos,
    checkedSetList_eq h', setFreeList_setFreeList]

@[simp] theorem size_setNext (s : Segment) (chunk : Option Nat) (n : Nat) :
    (s.setNext chunk n).size = s.size := by
  cases chunk with
  | none => rfl
  | some o => exact size_setWord ..

@[simp] theorem size_setPrevious (s : Segment) (chunk : Option Nat) (n : Nat) :
    (s.setPrevious chunk n).size = s.size := by
  cases chunk with
  | none => rfl
  | some o => exact size_setWord ..

@[simp] theorem size_setFreeList (s : Segment) (list : Nat) (l : FreeList) :
    (s.setFreeList list l).size = s.size := rfl

/-- The checks of filing a chunk pass if the chunk, its list and the head of that are in order. -/
theorem checkedFile_eq (hsmall : policy.classes.smallestChunk ≤ size)
    (hlist : policy.classes.listForChunk size < s.freeLists.size)
    (hwide : policy.classes.listForChunk size < 4294967296)
    (hoffset : offset < 4294967296) (hroom : offset + headerSize + minCapacity ≤ s.size)
    (hhead : ∀ o ∈ (s.freeList (policy.classes.listForChunk size)).head,
      o + headerSize + minCapacity ≤ s.size) :
    s.checkedFile policy offset size = .ok (s.file policy offset size) := by
  unfold headerSize minCapacity at hroom
  unfold checkedFile checkedListFor
  simp only [require_bind hsmall, ok_bind, pure, Except.pure, checkedList_eq hlist]
  split
  · rename_i hfull
    rw [file_of_full s policy _ _ hfull]
    exact checkedSetWord_eq (by unfold lengthField; omega) _
  · rename_i hnot
    rw [file_of_room s policy _ _ (Nat.lt_of_not_le hnot), narrow_eq hwide, ok_bind,
      checkedSetWord_eq (by unfold lengthField; omega), ok_bind,
      checkedSetWord_eq (by rw [size_setWord]; unfold nextField; omega), ok_bind,
      checkedSetWord_eq (by rw [size_setWord, size_setWord]; unfold previousField; omega), ok_bind,
      narrow_eq hoffset, ok_bind, checkedSetPrevious_eq (by simpa using hhead), ok_bind]
    exact checkedSetList_eq (by simpa using hlist) _

theorem isFree_iff : s.isFree offset = true ↔ s.generation offset = 0 := by simp [isFree]

/-- The checks of taking a chunk off its list pass if the chunk is free and, where it is on a list,
its neighbours and the list are in order. -/
theorem checkedUnlink_eq (hfree : s.isFree offset = true)
    (hroom : offset + headerSize + minCapacity ≤ s.size)
    (htracked : s.word offset lengthField ≠ untracked →
      s.word offset lengthField < s.freeLists.size ∧
        0 < (s.freeList (s.word offset lengthField)).length ∧
        (∀ o ∈ s.next offset, o + headerSize + minCapacity ≤ s.size) ∧
        ∀ o ∈ s.previous offset, o + headerSize + minCapacity ≤ s.size) :
    s.checkedUnlink offset = .ok (s.unlink offset) := by
  have hroom' := hroom
  unfold headerSize minCapacity at hroom'
  unfold checkedUnlink
  rw [checkedGeneration_eq (by omega), ok_bind, require_bind (isFree_iff.1 hfree),
    checkedWord_eq (by unfold lengthField; omega), ok_bind]
  by_cases hword : s.word offset lengthField = untracked
  · rw [if_pos hword, unlink_of_untracked s offset hword]
    rfl
  · obtain ⟨hlist, hpos, hnext, hprevious⟩ := htracked hword
    rw [if_neg hword, unlink_of_tracked s offset hword,
      checkedWord_eq (by unfold nextField; omega), ok_bind,
      checkedWord_eq (by unfold previousField; omega), ok_bind]
    simp only [next, previous] at hnext hprevious ⊢
    rw [checkedSetNext_eq hlist hprevious, ok_bind,
      checkedSetPrevious_eq (by rwa [size_setFreeList, size_setNext]), ok_bind,
      setPrevious_setFreeList, checkedSetWord_eq ?_, ok_bind, setWord_setFreeList]
    · have hlist' : s.word offset lengthField <
          (((s.setNext (ofLink (s.word offset previousField))
            (toLink (ofLink (s.word offset nextField)))).setPrevious
              (ofLink (s.word offset nextField))
              (toLink (ofLink (s.word offset previousField)))).setWord offset lengthField
                untracked).freeLists.size := by simpa using hlist
      exact checkedCountOff_eq hlist' _ hpos
    · rw [size_setFreeList, size_setPrevious, size_setNext]
      unfold lengthField
      omega

end Segment

end ObjectPile
