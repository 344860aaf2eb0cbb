/-
# Memory

The bytes of a segment, and the unsigned words kept in them with the least significant byte first.

* `Word.ofBytes_bytes` reads a word back, up to its width.
* `Memory.word_setWord` and `Memory.word_setWord_of_disjoint` are the two laws of words in memory.
-/
import ObjectPile.Tape

namespace ObjectPile

-- Powers of naturals are those of the core library, whatever else is imported.
attribute [local instance (2000)] instPowNat

namespace Word

/-- The `width` bytes of a number, least significant first; what does not fit is dropped. -/
def bytes : Nat → Nat → List UInt8
  | 0, _ => []
  | width + 1, n => UInt8.ofNat (n % 256) :: bytes width (n / 256)

/-- The number with the given bytes, least significant first. -/
def ofBytes : List UInt8 → Nat
  | [] => 0
  | b :: bs => b.toNat + 256 * ofBytes bs

@[simp] theorem length_bytes (width n : Nat) : (bytes width n).length = width := by
  induction width generalizing n with
  | zero => rfl
  | succ width ih => rw [bytes, List.length_cons, ih]

theorem ofBytes_bytes (width n : Nat) : ofBytes (bytes width n) = n % 256 ^ width := by
  induction width generalizing n with
  | zero => simp [bytes, ofBytes, Nat.mod_one]
  | succ width ih =>
    have h : (UInt8.ofNat (n % 256)).toNat = n % 256 := by
      rw [UInt8.toNat_ofNat']
      omega
    rw [bytes, ofBytes, ih, h, Nat.pow_succ', Nat.mod_mul]

end Word

/-- The bytes of a segment, zero until written. -/
abbrev Memory := Tape UInt8 0

namespace Memory

/-- The word of `width` bytes at an offset. -/
def word (m : Memory) (width offset : Nat) : Nat :=
  Word.ofBytes (m.read offset width)

/-- Writes a word of `width` bytes at an offset. -/
def setWord (m : Memory) (width offset n : Nat) : Memory :=
  m.write offset (Word.bytes width n)

/-- A word reads back as it was written, up to its width. -/
theorem word_setWord (m : Memory) (width offset n : Nat) :
    (m.setWord width offset n).word width offset = n % 256 ^ width := by
  have h := m.read_write_self (Word.bytes width n) offset
  rw [Word.length_bytes] at h
  rw [word, setWord, h, Word.ofBytes_bytes]

/-- A word elsewhere is left as it was. -/
theorem word_setWord_of_disjoint (m : Memory) {width offset width' offset' : Nat} (n : Nat)
    (h : offset' + width' ≤ offset ∨ offset + width ≤ offset') :
    (m.setWord width offset n).word width' offset' = m.word width' offset' := by
  rw [word, setWord, Tape.read_write_of_disjoint _ _ (by simpa using h), ← word]

end Memory

end ObjectPile
