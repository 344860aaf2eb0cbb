/-
# Dates and times

The date-times of TOML: a date, a time of day, or both and then maybe the offset of the time from
universal time. A date-time has several spellings and one normal form.

* `Datetime.ofChars?` reads a date-time in any of its spellings.
* `Datetime.text` is its normal form.
-/
import ObjectPile.Toml.Reader

namespace ObjectPile.Toml

/-- A day of the Gregorian calendar. -/
structure Date where
  year : Nat
  month : Nat
  day : Nat
  deriving DecidableEq, Repr, Inhabited

/-- A time of day. -/
structure Time where
  hour : Nat
  minute : Nat
  second : Nat := 0
  nanosecond : Nat := 0
  deriving DecidableEq, Repr, Inhabited

/-- How far a time is ahead of universal time. -/
inductive Offset where
  | universal
  | minutes (n : Int)
  deriving DecidableEq, Repr, Inhabited

/-- A date, a time of day, or both. -/
inductive Datetime where
  | date (d : Date)
  | time (t : Time)
  | both (d : Date) (t : Time) (offset : Option Offset)
  deriving DecidableEq, Repr, Inhabited

/-- A number in decimal with zeros in front up to a width. -/
def paddedChars (width n : Nat) : List Char :=
  List.replicate (width - (Decimal.chars n).length) '0' ++ Decimal.chars n

/-! ## Dates -/

namespace Date

/-- The number of days of a month. -/
def daysIn (year month : Nat) : Nat :=
  if month = 2 then
    if year % 4 = 0 ∧ (year % 100 ≠ 0 ∨ year % 400 = 0) then 29 else 28
  else if month = 4 ∨ month = 6 ∨ month = 9 ∨ month = 11 then 30
  else 31

/-- Whether the calendar has the day. -/
def isValid (d : Date) : Bool :=
  1 ≤ d.month && d.month ≤ 12 && 1 ≤ d.day && d.day ≤ daysIn d.year d.month

/-- Reads a date. -/
def read? : Reader Date := fun s => do
  let (year, s) ← number? 4 s
  let (month, s) ← number? 2 (← after? '-' s)
  let (day, s) ← number? 2 (← after? '-' s)
  let d : Date := ⟨year, month, day⟩
  if d.isValid then some (d, s) else none

def chars (d : Date) : List Char :=
  paddedChars 4 d.year ++ '-' :: paddedChars 2 d.month ++ '-' :: paddedChars 2 d.day

end Date

/-! ## Times of day -/

namespace Time

/-- The digits of a fraction of a second that count. -/
def places : Nat := 9

/-- Whether a clock shows the time, in a leap second maybe. -/
def isValid (t : Time) : Bool := t.hour ≤ 23 && t.minute ≤ 59 && t.second ≤ 60

/-- Reads the fraction of a second, if there is one, in nanoseconds. -/
def fraction? : Reader Nat
  | '.' :: s => do
    match ← (s.takeWhile Char.isDigit).mapM Decimal.digitOfChar? with
    | [] => none
    | ds =>
      let counted := (ds ++ List.replicate places 0).take places
      return (Decimal.ofDigits counted, s.dropWhile Char.isDigit)
  | s => some (0, s)

/-- Reads a time: hours and minutes, maybe seconds, maybe a fraction of a second. -/
def read? : Reader Time := fun s => do
  let (hour, s) ← number? 2 s
  let (minute, s) ← number? 2 (← after? ':' s)
  let (t, s) ← match s with
    | ':' :: s => do
      let (second, s) ← number? 2 s
      let (nanosecond, s) ← fraction? s
      some ((⟨hour, minute, second, nanosecond⟩ : Time), s)
    | s => some (⟨hour, minute, 0, 0⟩, s)
  if t.isValid then some (t, s) else none

/-- The fraction of a second after its point, without zeros at the end. -/
def fractionChars (t : Time) : List Char :=
  ((paddedChars places t.nanosecond).reverse.dropWhile (· == '0')).reverse

def chars (t : Time) : List Char :=
  paddedChars 2 t.hour ++ ':' :: paddedChars 2 t.minute ++ ':' :: paddedChars 2 t.second ++
    if t.nanosecond = 0 then [] else '.' :: t.fractionChars

end Time

/-! ## Offsets -/

namespace Offset

/-- Reads hours and minutes. -/
def distance? : Reader Nat := fun s => do
  let (hour, s) ← number? 2 s
  let (minute, s) ← number? 2 (← after? ':' s)
  if hour ≤ 23 ∧ minute ≤ 59 then some (60 * hour + minute, s) else none

/-- Reads an offset. -/
def read? : Reader Offset
  | 'Z' :: s => some (.universal, s)
  | 'z' :: s => some (.universal, s)
  | '+' :: s => (distance? s).map fun (n, s) => (.minutes n, s)
  | '-' :: s => (distance? s).map fun (n, s) => (.minutes (-n), s)
  | _ => none

def chars : Offset → List Char
  | .universal => ['Z']
  | .minutes n =>
    (if n < 0 then '-' else '+') ::
      paddedChars 2 (n.natAbs / 60) ++ ':' :: paddedChars 2 (n.natAbs % 60)

end Offset

/-! ## Date-times -/

namespace Datetime

/-- A letter or a space stands between a date and a time. -/
def isSeparator (c : Char) : Bool := c == 'T' || c == 't' || c == ' '

/-- The date-time of a date and the time that a text spells after it. -/
def withTime? (d : Date) (s : List Char) : Option Datetime := do
  let (t, s) ← Time.read? s
  match s with
  | [] => return .both d t none
  | s =>
    match ← Offset.read? s with
    | (offset, []) => return .both d t (some offset)
    | _ => none

/-- The date-time that a text spells. -/
def ofChars? (s : List Char) : Option Datetime :=
  match Date.read? s with
  | some (d, []) => some (.date d)
  | some (d, c :: s) => if isSeparator c then withTime? d s else none
  | none =>
    match Time.read? s with
    | some (t, []) => some (.time t)
    | _ => none

def chars : Datetime → List Char
  | .date d => d.chars
  | .time t => t.chars
  | .both d t none => d.chars ++ 'T' :: t.chars
  | .both d t (some offset) => d.chars ++ 'T' :: t.chars ++ offset.chars

/-- The normal form of a date-time: with its seconds, with the letters in upper case and without
zeros at the end of a fraction. -/
def text (d : Datetime) : String := String.ofList d.chars

end Datetime

end ObjectPile.Toml
