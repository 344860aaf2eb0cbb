/-
# Decimal numbers

The decimal digits of a natural number, most significant first and without leading zeros.

* `ofDigits_digits`: a number is the value of its digits.
* `digitOfChar?_digitChar`: a digit is read from the character it is written as.
-/
namespace ObjectPile.Decimal

/-- The decimal digits of a number, most significant first. -/
def digits (n : Nat) : List Nat :=
  if n < 10 then [n] else digits (n / 10) ++ [n % 10]

/-- The value of a row of digits, most significant first. -/
def ofDigits (ds : List Nat) : Nat :=
  ds.foldl (fun n d => 10 * n + d) 0

/-- The character of a digit. -/
def digitChar (d : Nat) : Char := Char.ofNat (48 + d)

/-- The digit that a character stands for. -/
def digitOfChar? (c : Char) : Option Nat :=
  if '0' ≤ c ∧ c ≤ '9' then some (c.toNat - 48) else none

/-- The characters of a number in decimal. -/
def chars (n : Nat) : List Char := (digits n).map digitChar

/-- The characters of an integer in decimal, with a minus sign where it is negative. -/
def intChars : Int → List Char
  | .ofNat n => chars n
  | .negSucc n => '-' :: chars (n + 1)

/-- A number in decimal. -/
def text (n : Nat) : String := String.ofList (chars n)

/-- An integer in decimal. -/
def intText (n : Int) : String := String.ofList (intChars n)

/-! ## Digits and values -/

theorem ofDigits_append_singleton (ds : List Nat) (d : Nat) :
    ofDigits (ds ++ [d]) = 10 * ofDigits ds + d := by
  simp [ofDigits, List.foldl_append]

/-- A number is the value of its digits. -/
theorem ofDigits_digits (n : Nat) : ofDigits (digits n) = n := by
  induction n using Nat.strongRecOn with
  | _ n ih =>
    rw [digits]
    split
    · simp [ofDigits]
    · rw [ofDigits_append_singleton, ih (n / 10) (by omega)]
      omega

theorem digits_lt {n d : Nat} (h : d ∈ digits n) : d < 10 := by
  induction n using Nat.strongRecOn with
  | _ n ih =>
    rw [digits] at h
    split at h
    · rename_i hn
      rw [List.mem_singleton] at h
      omega
    · rw [List.mem_append, List.mem_singleton] at h
      rcases h with h | h
      · exact ih (n / 10) (by omega) h
      · omega

theorem digits_ne_nil (n : Nat) : digits n ≠ [] := by
  rw [digits]
  split <;> simp

/-- A digit is read from the character it is written as. -/
theorem digitOfChar?_digitChar {d : Nat} (h : d < 10) : digitOfChar? (digitChar d) = some d := by
  have : d = 0 ∨ d = 1 ∨ d = 2 ∨ d = 3 ∨ d = 4 ∨ d = 5 ∨ d = 6 ∨ d = 7 ∨ d = 8 ∨ d = 9 := by
    omega
  rcases this with h | h | h | h | h | h | h | h | h | h <;> subst h <;> rfl

end ObjectPile.Decimal
