/-
# Headers

What a header reads as once it is written, and which places have one.

* The size of a chunk and the version of its payload share one word; both are read back.
* `resolve?_eq_some_iff` says which offsets and generations name a live chunk.
-/
import ObjectPile.Segment.Basic

namespace ObjectPile.Segment

/-! ## Written headers -/

/-- The word with the size of a chunk, after its header is written. -/
theorem word_sizeField_writeHeader (s : Segment) (offset size : Nat) (version : CodecVersion)
    (length generation : Nat) (h : size + 16 ≤ 4294967296) :
    (s.writeHeader offset size version length generation).word offset sizeField =
      size + version.tag.val := by
  have ht := version.tag.isLt
  simp only [word, writeHeader]
  rw [Memory.word_setWord_of_disjoint _ _ (by simp only [sizeField, generationField]; omega),
    Memory.word_setWord_of_disjoint _ _ (by simp only [sizeField, lengthField]; omega),
    Memory.word_setWord]
  omega

/-- The size of a chunk is read as it was written. -/
theorem chunkSize_writeHeader (s : Segment) (offset : Nat) {size : Nat} (version : CodecVersion)
    (length generation : Nat) (hm : size % 16 = 0) (h : size + 16 ≤ 4294967296) :
    (s.writeHeader offset size version length generation).chunkSize offset = size := by
  have ht := version.tag.isLt
  rw [chunkSize, word_sizeField_writeHeader s offset size version length generation h]
  omega

/-- The version of a payload is read as it was written. -/
theorem chunkVersion_writeHeader (s : Segment) (offset : Nat) {size : Nat} (version : CodecVersion)
    (length generation : Nat) (hm : size % 16 = 0) (h : size + 16 ≤ 4294967296) :
    (s.writeHeader offset size version length generation).chunkVersion offset = version := by
  have ht := version.tag.isLt
  rw [chunkVersion, word_sizeField_writeHeader s offset size version length generation h]
  conv => rhs; rw [← CodecVersion.ofBits_tag version]
  simp only [CodecVersion.ofBits, CodecVersion.mk.injEq, Fin.mk.injEq]
  omega

/-- The length of a payload is read as it was written. -/
theorem word_lengthField_writeHeader (s : Segment) (offset size : Nat) (version : CodecVersion)
    {length : Nat} (generation : Nat) (h : length < 4294967296) :
    (s.writeHeader offset size version length generation).word offset lengthField = length := by
  simp only [word, writeHeader]
  rw [Memory.word_setWord_of_disjoint _ _ (by simp only [lengthField, generationField]; omega),
    Memory.word_setWord]
  omega

/-- The generation of a chunk is read as it was written. -/
theorem generation_writeHeader (s : Segment) (offset size : Nat) (version : CodecVersion)
    (length : Nat) {generation : Nat} (h : generation ≤ maxWord) :
    (s.writeHeader offset size version length generation).generation offset = generation := by
  simp only [Segment.generation, writeHeader, maxWord] at *
  rw [Memory.word_setWord]
  omega

/-! ## Live chunks -/

/-- An offset and a generation name a live chunk exactly if a chunk starts there below the cursor
and was stamped with that generation. -/
theorem resolve?_eq_some_iff {s : Segment} {offset generation : Nat} {chunk : LiveChunk} :
    s.resolve? offset generation = some chunk ↔
      generation ≠ 0 ∧ offset % 16 = 0 ∧ offset < s.bump ∧ s.isStart offset = true ∧
        s.generation offset = generation ∧
        chunk = ⟨offset, s.chunkSize offset, s.word offset lengthField, s.chunkVersion offset⟩ := by
  rw [resolve?]
  split
  · rename_i h
    obtain ⟨h0, h16, hlt, hs, hg⟩ := h
    constructor
    · intro hc
      exact ⟨h0, h16, hlt, hs, hg, (Option.some.inj hc).symm⟩
    · rintro ⟨-, -, -, -, -, rfl⟩
      rfl
  · rename_i h
    constructor
    · intro hc
      simp at hc
    · rintro ⟨h0, h16, hlt, hs, hg, -⟩
      exact absurd ⟨h0, h16, hlt, hs, hg⟩ h

end ObjectPile.Segment
