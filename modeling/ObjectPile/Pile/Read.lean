/-
# Reading

Following a pointer into a pile. On a started pile every pointer that does not name a live object of
this pile is an access violation. On any other pile that goes for all pointers but the invalid one,
which is answered with nothing.
-/
import ObjectPile.Pile.Basic

namespace ObjectPile

/-- The room of an object: its payload and whatever else fits into its chunk. -/
structure RawBuffer where
  /-- The bytes of the segment that the object is in. -/
  memory : Memory
  /-- Where in them the room begins. -/
  start : Nat
  capacity : Nat
  /-- The length of the payload. -/
  length : Nat
  version : CodecVersion
  deriving Inhabited

namespace RawBuffer

/-- All bytes of the buffer. -/
def bytes (b : RawBuffer) : List UInt8 := b.memory.read b.start b.capacity

/-- The payload at the front of the buffer. -/
def payload (b : RawBuffer) : List UInt8 := b.memory.read b.start b.length

@[simp] theorem length_bytes (b : RawBuffer) : b.bytes.length = b.capacity := Tape.length_read ..

end RawBuffer

namespace Pile

/-- Looks at the chunk that a pointer names. -/
def view {α : Type} (p : Pile) (pointer : Pointer) (f : Segment → LiveChunk → α) :
    Except PileError (Option α) :=
  if p.state ≠ .started then
    if pointer.isValid then .error (.accessViolation pointer) else .ok none
  else if pointer.pile ≠ p.id then .error (.accessViolation pointer)
  else
    match p.slot? pointer.segment with
    | none => .error (.accessViolation pointer)
    | some s =>
      match s.resolve? pointer.offset pointer.generation with
      | none => .error (.accessViolation pointer)
      | some chunk => .ok (some (f s chunk))

/-- Applies a function to the payload of an object and its version. -/
def withPayload {α : Type} (p : Pile) (pointer : Pointer) (f : List UInt8 → CodecVersion → α) :
    Except PileError (Option α) :=
  p.view pointer fun s chunk => f (s.payload chunk) chunk.version

/-- The payload of an object and its version. -/
def getVersioned (p : Pile) (pointer : Pointer) :
    Except PileError (Option (List UInt8 × CodecVersion)) :=
  p.withPayload pointer fun payload version => (payload, version)

/-- The payload of an object. -/
def get (p : Pile) (pointer : Pointer) : Except PileError (Option (List UInt8)) :=
  (p.getVersioned pointer).map fun found => found.map Prod.fst

/-- The length of the payload of an object. -/
def lengthOf (p : Pile) (pointer : Pointer) : Except PileError (Option Nat) :=
  p.view pointer fun _ chunk => chunk.length

/-- All the room that the chunk of an object has for its payload. -/
def rawBuffer (p : Pile) (pointer : Pointer) : Except PileError (Option RawBuffer) :=
  p.view pointer fun s chunk =>
    ⟨s.memory, chunk.offset + headerSize, chunk.capacity, chunk.length, chunk.version⟩

end Pile

end ObjectPile
