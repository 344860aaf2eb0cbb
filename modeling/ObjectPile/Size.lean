/-
# Byte counts

The unit in which segments are carved, and the sums of machine words that stop at the largest word
instead of wrapping.
-/
namespace ObjectPile

/-- Bytes at the start of every chunk that describe it. -/
def headerSize : Nat := 16

/-- No chunk has less room for a payload: a free chunk keeps its two links there. -/
def minCapacity : Nat := 16

/-- The largest unsigned word of 64 bits. -/
def maxWord : Nat := 18446744073709551615

/-- The largest signed word of 64 bits. -/
def maxSigned : Nat := 9223372036854775807

/-- The least multiple of 16 that is not below `n`. Chunks start at, and span, such multiples. -/
def roundUp (n : Nat) : Nat := (n + 15) / 16 * 16

/-- A sum that stops at the largest word. -/
def satAdd (a b : Nat) : Nat := min (a + b) maxWord

/-- A product that stops at the largest word. -/
def satMul (a b : Nat) : Nat := min (a * b) maxWord

/-! ## Rounding -/

theorem le_roundUp (n : Nat) : n ≤ roundUp n := by
  unfold roundUp
  omega

theorem roundUp_mod (n : Nat) : roundUp n % 16 = 0 := by
  unfold roundUp
  omega

/-- No smaller multiple of 16 is not below `n`. -/
theorem roundUp_le {n q : Nat} (h : n ≤ q) (hq : q % 16 = 0) : roundUp n ≤ q := by
  unfold roundUp
  omega

theorem roundUp_mono {a b : Nat} (h : a ≤ b) : roundUp a ≤ roundUp b := by
  unfold roundUp
  omega

/-! ## Saturation -/

theorem satAdd_eq_add {a b : Nat} (h : a + b ≤ maxWord) : satAdd a b = a + b :=
  Nat.min_eq_left h

theorem satMul_eq_mul {a b : Nat} (h : a * b ≤ maxWord) : satMul a b = a * b :=
  Nat.min_eq_left h

end ObjectPile
