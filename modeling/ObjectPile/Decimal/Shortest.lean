/-
# Shortest decimal digits

The decimal with the fewest digits among those that round to a given double, and of these the one
nearest to it.

A double stands for the interval of reals that round to it, the ends included exactly if its
significand is even. For 1, 2, … digits the two neighbours of the double on that decimal grid are
tried; the first grid with a neighbour inside the interval wins, of two such neighbours the nearer
one, and of two equally near ones the even one.
-/
import ObjectPile.Decimal.Binary64
import ObjectPile.Decimal.Natural

namespace ObjectPile.Decimal

-- Powers of naturals are those of the core library, whatever else is imported.
attribute [local instance (2000)] instPowNat

/-- A decimal number `coefficient * 10 ^ exponent`. -/
structure Scaled where
  coefficient : Nat
  exponent : Int
  deriving DecidableEq, Repr, Inhabited

/-- A decimal grid: its step is `num / den` quarters of the least positive double. -/
structure Grid where
  num : Nat
  den : Nat

/-- The grid of the multiples of a power of ten. -/
def Grid.ofPower (k : Int) : Grid :=
  let quarters := 4 * Binary64.unitsPerOne
  if 0 ≤ k then ⟨10 ^ k.toNat * quarters, 1⟩ else ⟨quarters, 10 ^ (-k).toNat⟩

/-- The quarters of the least positive double that make up a double. -/
def quarters (x : Binary64) : Nat := 4 * x.units

/-- Whether the `c`-th point of a grid rounds to the double. -/
def roundsTo (x : Binary64) (grid : Grid) (c : Nat) : Bool :=
  let gap := 2 ^ x.exponent
  let atPower : Bool := x.significand = 2 ^ (Binary64.precision - 1) ∧ 0 < x.exponent
  let below := if atPower then gap else 2 * gap
  let point := c * grid.num
  let low := (quarters x - below) * grid.den
  let high := (quarters x + 2 * gap) * grid.den
  if x.significand % 2 = 0 then low ≤ point && point ≤ high else low < point && point < high

/-- The number of decimal places before the point of a positive double, negative or zero if it is
below one tenth. -/
def places (x : Binary64) : Int :=
  let guess : Int := ((x.units.log2 : Int) - 1074) * 30103 / 100000
  let fits (k : Int) : Bool :=
    let grid := Grid.ofPower k
    quarters x * grid.den < grid.num
  if fits guess then guess else if fits (guess + 1) then guess + 1 else guess + 2

/-- The neighbour of a double on a grid that rounds to it, if there is one. -/
def onGrid? (x : Binary64) (k : Int) : Option Scaled :=
  let grid := Grid.ofPower k
  let value := quarters x * grid.den
  let c := value / grid.num
  let below := value % grid.num
  let above := grid.num - below
  match roundsTo x grid c, roundsTo x grid (c + 1) with
  | false, false => none
  | true, false => some ⟨c, k⟩
  | false, true => some ⟨c + 1, k⟩
  | true, true =>
    if below < above ∨ (below = above ∧ c % 2 = 0) then some ⟨c, k⟩ else some ⟨c + 1, k⟩

/-- Drops the zeros at the end of the coefficient. -/
def Scaled.trim (d : Scaled) : Scaled :=
  if h : d.coefficient ≠ 0 ∧ d.coefficient % 10 = 0 then
    Scaled.trim ⟨d.coefficient / 10, d.exponent + 1⟩
  else d
termination_by d.coefficient
decreasing_by
  exact Nat.div_lt_self (Nat.pos_of_ne_zero h.1) (by omega)

/-- Seventeen digits always suffice to tell a double from all others. -/
def maxDigits : Nat := 17

/-- The shortest decimal that rounds to a positive double, without zeros at its end. -/
def shortest (x : Binary64) : Scaled :=
  let n := places x
  let found := (List.range maxDigits).findSome? fun (i : Nat) => onGrid? x (n - (i + 1))
  (found.getD ⟨0, 0⟩).trim

end ObjectPile.Decimal
