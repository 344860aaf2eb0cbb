/-
# TOML values

The values of a TOML document. Numbers are read whatever their size, and some integers although they
are misspelt; `Value.settle?` refuses those that no 64 bits can hold and finds the date-times that
are spelled as tables.
-/
import ObjectPile.Decimal.Shortest
import ObjectPile.Size
import ObjectPile.Toml.Datetime

namespace ObjectPile.Toml

-- Powers of naturals are those of the core library, whatever else is imported.
attribute [local instance (2000)] instPowNat

/-- A number with a fraction, a power of ten or both, or one of the special values. -/
inductive FloatValue where
  | finite (negative : Bool) (magnitude : Decimal.Scaled)
  | infinite (negative : Bool)
  | notANumber
  deriving DecidableEq, Repr, Inhabited

/-- A TOML value. -/
inductive Value where
  | string (s : String)
  | integer (n : Int)
  /-- Something that is written like an integer but spells none. -/
  | misspelt
  | float (x : FloatValue)
  | boolean (b : Bool)
  | datetime (d : Datetime)
  | array (items : List Value)
  | table (entries : List (String × Value))
  deriving Repr, Inhabited

/-- The entries of a table, each key once. -/
abbrev Table := List (String × Value)

/-- The value of a key. -/
def Table.get? (t : Table) (key : String) : Option Value := t.lookup key

def Value.isDatetime : Value → Bool
  | .datetime _ => true
  | _ => false

/-! ## The size of numbers -/

/-- Whether an integer is a signed word of 64 bits. -/
def isWord (n : Int) : Bool := -(maxSigned : Int) - 1 ≤ n && n ≤ maxSigned

/-- Whether a decimal number is too large for a double. -/
def overflows (x : Decimal.Scaled) : Bool :=
  let c := x.coefficient
  let places : Int := (Decimal.digits c).length + x.exponent
  let bound := 2 ^ (1024 : Nat) - 2 ^ (970 : Nat)
  if c = 0 ∨ places < 300 then false
  else if 320 < places then true
  else if 0 ≤ x.exponent then bound ≤ c * 10 ^ x.exponent.toNat
  else bound * 10 ^ (-x.exponent).toNat ≤ c

/-- Whether a float is a double. -/
def FloatValue.isDouble : FloatValue → Bool
  | .finite _ magnitude => !overflows magnitude
  | _ => true

/-! ## Settled values -/

/-- The key of a date-time that is spelled as a table. -/
def datetimeKey : String := "$__toml_private_datetime"

/-- What a table has under `datetimeKey`, if none of its keys comes before that one. -/
def marked? (t : Table) : Option Value :=
  if t.any fun entry => entry.1 < datetimeKey then none else t.get? datetimeKey

/-- The date-time in the text of a table that spells one. -/
def Value.asDatetime? : Value → Option Value
  | .string s => (Datetime.ofChars? s.toList).map .datetime
  | _ => none

mutual

/-- The value in which the tables that spell date-times have become those, if its numbers are
numbers and fit 64 bits. Of a table that spells a date-time no other entry counts. -/
def Value.settle? : Value → Option Value
  | .integer n => if isWord n then some (.integer n) else none
  | .misspelt => none
  | .float x => if x.isDouble then some (.float x) else none
  | .array items => (settleItems? items).map .array
  | .table entries =>
    match marked? entries with
    | some v => v.asDatetime?
    | none => (settleEntries? entries).map .table
  | v => some v

/-- `Value.settle?` on each item. -/
def settleItems? : List Value → Option (List Value)
  | [] => some []
  | v :: rest => do
    let v ← v.settle?
    let rest ← settleItems? rest
    return v :: rest

/-- `Value.settle?` on each entry. -/
def settleEntries? : List (String × Value) → Option (List (String × Value))
  | [] => some []
  | (key, v) :: rest => do
    let v ← v.settle?
    let rest ← settleEntries? rest
    return (key, v) :: rest

end

end ObjectPile.Toml
