/-
# Numbers in JSON texts

A numeral is a number as it is spelled; `Numeral.value?` is the number it stands for. A whole
number that fits a signed or unsigned word of 64 bits is an integer, any other number a double.

The digits of a double are gathered in an unsigned word of 64 bits. Digits for which it has no room
are dropped: those before the point then count as powers of ten. The word is rounded to a double
and scaled by one power of ten.
-/
import ObjectPile.Json.Value
import ObjectPile.Decimal.Natural
import ObjectPile.Decimal.Shortest
import ObjectPile.Size

namespace ObjectPile

/-- A number as it is spelled. -/
structure Numeral where
  negative : Bool
  /-- Digits before the point. -/
  whole : List Nat
  /-- Digits after the point, if there is a point. -/
  fraction : Option (List Nat)
  /-- Digits of the power of ten and whether it is negative, if it is given. -/
  power : Option (Bool × List Nat)
  deriving DecidableEq, Repr, Inhabited

namespace Numeral

/-- Appends digits to a number for as long as it stays a word; also says how many were left. -/
def gather (n : Nat) : List Nat → Nat × Nat
  | [] => (n, 0)
  | d :: ds => if 10 * n + d ≤ maxWord then gather (10 * n + d) ds else (n, ds.length + 1)

/-- The power of ten of a numeral. -/
def exponent (x : Numeral) : Int :=
  match x.power with
  | none => 0
  | some (negative, ds) => if negative then -(Decimal.ofDigits ds : Int) else Decimal.ofDigits ds

/-- The double that a numeral stands for, `none` if it is too large. -/
def double? (x : Numeral) : Option Binary64 :=
  let (n, dropped) := gather 0 x.whole
  let fraction := x.fraction.getD []
  let (m, left) := gather n fraction
  let e := (dropped : Int) - (fraction.length - left : Nat) + x.exponent
  ((Binary64.ofNat? m).bind fun y => y.scale10? e).map fun y => y.withSign x.negative

/-- The integer that a numeral stands for: it has neither point nor power of ten, is not a negative
zero and fits a word. -/
def integer? (x : Numeral) : Option Int :=
  match x.fraction, x.power with
  | none, none =>
    let n := Decimal.ofDigits x.whole
    if x.negative then
      if 0 < n ∧ n ≤ maxSigned + 1 then some (-n) else none
    else if n ≤ maxWord then some n else none
  | _, _ => none

/-- The number that a numeral stands for, `none` if it is too large. -/
def value? (x : Numeral) : Option Json :=
  match x.integer? with
  | some n => some (.integer n)
  | none => x.double?.map .double

end Numeral

/-! ## Spelling doubles -/

namespace Json

/-- Doubles whose leading digit has a power of ten in this range are written without one. -/
def leastPlain : Int := -5

/-- The upper end of the range of `leastPlain`. -/
def greatestPlain : Int := 15

/-- A positive decimal as a JSON number: with a point and at least one digit on both sides of it,
or with a power of ten where the number is very large or very small. -/
def scaledChars (d : Decimal.Scaled) : List Char :=
  let ds := Decimal.chars d.coefficient
  let places : Int := ds.length + d.exponent
  let power := places - 1
  if leastPlain ≤ power ∧ power ≤ greatestPlain then
    if 0 ≤ d.exponent then ds ++ List.replicate d.exponent.toNat '0' ++ ['.', '0']
    else if 0 < places then ds.take places.toNat ++ '.' :: ds.drop places.toNat
    else ['0', '.'] ++ List.replicate (-places).toNat '0' ++ ds
  else
    let mantissa := match ds with
      | [] => []
      | [c] => [c]
      | c :: cs => c :: '.' :: cs
    mantissa ++ 'e' :: (if power < 0 then '-' else '+') :: Decimal.chars power.natAbs

/-- A double as a JSON number with the fewest digits that read back as it. -/
def doubleChars (x : Binary64) : List Char :=
  let magnitude := if x.isZero then ['0', '.', '0'] else scaledChars (Decimal.shortest x)
  if x.negative then '-' :: magnitude else magnitude

end Json

end ObjectPile
