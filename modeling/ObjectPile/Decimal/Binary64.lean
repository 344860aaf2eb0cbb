/-
# Double precision numbers

Finite IEEE 754 numbers of 64 bits, as a natural significand times a power of two. Every magnitude
is a whole number of units of 2 ^ -1074, the least positive double, so rounding, products and
quotients are exact arithmetic on naturals followed by one rounding to the nearest double, ties to
the even significand.
-/
namespace ObjectPile

-- Powers of naturals are those of the core library, whatever else is imported.
attribute [local instance (2000)] instPowNat

/-- A finite double of magnitude `significand * 2 ^ exponent` units of 2 ^ -1074. Its significand
is below 2 ^ 53, and at least 2 ^ 52 unless the exponent is zero. -/
structure Binary64 where
  negative : Bool
  significand : Nat
  exponent : Nat
  deriving DecidableEq, Repr, Inhabited

namespace Binary64

/-- One is this power of two of units. -/
def unitBits : Nat := 1074

/-- The bits of a significand. -/
def precision : Nat := 53

/-- Units of 2 ^ -1074 in one. -/
def unitsPerOne : Nat := 2 ^ unitBits

/-- The exponent of the largest doubles. -/
def maxExponent : Nat := 2045

/-- The magnitude in units of 2 ^ -1074. -/
def units (x : Binary64) : Nat := x.significand * 2 ^ x.exponent

def isZero (x : Binary64) : Bool := x.significand == 0

/-- The same magnitude with the given sign. -/
def withSign (x : Binary64) (negative : Bool) : Binary64 := { x with negative }

/-- The whole number nearest to a quotient, the even one of two that are equally near. -/
def roundQuotient (num den : Nat) : Nat :=
  let q := num / den
  let r := num % den
  if den < 2 * r ∨ (2 * r = den ∧ q % 2 = 1) then q + 1 else q

/-- The double nearest to `num / den` units, `none` beyond the largest double. -/
def ofUnits? (negative : Bool) (num den : Nat) : Option Binary64 :=
  let q := num / den
  let e := if q < 2 ^ precision then 0 else q.log2 + 1 - precision
  let m := roundQuotient num (den * 2 ^ e)
  let x : Binary64 :=
    if m = 2 ^ precision then ⟨negative, 2 ^ (precision - 1), e + 1⟩ else ⟨negative, m, e⟩
  if x.exponent ≤ maxExponent then some x else none

/-- The double nearest to a natural number. -/
def ofNat? (n : Nat) : Option Binary64 := ofUnits? false (n * unitsPerOne) 1

/-- The product rounded to the nearest double. -/
def mul? (x y : Binary64) : Option Binary64 :=
  ofUnits? (x.negative != y.negative) (x.units * y.units) unitsPerOne

/-- The quotient by a nonzero double, rounded to the nearest double. -/
def div? (x y : Binary64) : Option Binary64 :=
  ofUnits? (x.negative != y.negative) (x.units * unitsPerOne) y.units

/-- The double nearest to a power of ten. -/
def powerOfTen? (k : Nat) : Option Binary64 := ofNat? (10 ^ k)

/-- The largest power of ten that is multiplied or divided by in one step. -/
def maxPower : Nat := 308

/-- Moves the decimal point of a double: one product or quotient with the rounded power of ten, and
one quotient by 10 ^ 308 beforehand for as long as the number is to become smaller than that. -/
def scale10? (x : Binary64) (e : Int) : Option Binary64 :=
  if 0 ≤ e then
    if e ≤ maxPower then (powerOfTen? e.toNat).bind x.mul?
    else if x.isZero then some x
    else none
  else if -(maxPower : Int) ≤ e then (powerOfTen? (-e).toNat).bind x.div?
  else if x.isZero then some x
  else ((powerOfTen? maxPower).bind x.div?).bind fun y => y.scale10? (e + maxPower)
termination_by (-e).toNat
decreasing_by
  simp only [maxPower] at *
  omega

end Binary64

end ObjectPile
