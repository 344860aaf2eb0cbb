/-
# Codec versions

The tag that is kept in the header of a chunk beside its payload and says which codec made it. Four
bits of the header are left for it.
-/
namespace ObjectPile

/-- A tag of four bits. -/
structure CodecVersion where
  tag : Fin 16
  deriving DecidableEq, Repr, Inhabited

namespace CodecVersion

/-- The tag of payloads that are stored as they are. -/
def raw : CodecVersion := ⟨0⟩

/-- The tag of payloads in JSON. -/
def json : CodecVersion := ⟨1⟩

/-- The version with a tag, if the tag fits into a header. -/
def ofTag? (tag : Nat) : Option CodecVersion :=
  if h : tag < 16 then some ⟨⟨tag, h⟩⟩ else none

/-- The version in the low four bits of a number. -/
def ofBits (n : Nat) : CodecVersion := ⟨⟨n % 16, by omega⟩⟩

/-- What is said where a tag does not fit. -/
def tagTooLarge : String := "codec version tag does not fit in a chunk header"

/-- The name of a version. -/
def name (v : CodecVersion) : String :=
  if v = raw then "raw" else if v = json then "json" else s!"custom({v.tag.val})"

@[simp] theorem ofBits_tag (v : CodecVersion) : ofBits v.tag.val = v := by
  have := v.tag.isLt
  simp only [ofBits, Nat.mod_eq_of_lt this]

/-- Every version comes from its own tag and from no other. -/
theorem ofTag?_eq_some_iff {n : Nat} {v : CodecVersion} : ofTag? n = some v ↔ n = v.tag.val := by
  unfold ofTag?
  constructor
  · intro h
    split at h
    · simp only [Option.some.injEq] at h
      rw [← h]
    · simp at h
  · rintro rfl
    simp

end CodecVersion

end ObjectPile
