/-
# JSON tokens

The tokens of a JSON text, read from its bytes. A token keeps what its grammar leaves open: a number
its digits, a string its bytes and escapes. Whether the number is in range, or the string
well formed UTF-8, is asked only of tokens whose value is wanted.

* `Token.lex?` splits a text into tokens.
* `next?_length`: each token takes at least one byte.
-/
import ObjectPile.Json.Numeral

namespace ObjectPile

/-- A part of a string between its quotes. -/
inductive Piece where
  /-- A byte that stands for itself, or that a short escape stands for. -/
  | byte (b : UInt8)
  /-- A UTF-16 unit, spelled by its four hexadecimal digits. -/
  | unit (u : Nat)
  deriving DecidableEq, Repr, Inhabited

/-- A JSON token. -/
inductive Token where
  | beginArray
  | endArray
  | beginObject
  | endObject
  | comma
  | colon
  | null
  | boolean (b : Bool)
  | number (x : Numeral)
  | string (pieces : List Piece)
  deriving DecidableEq, Repr, Inhabited

namespace Token

/-- Space, tab, line feed and carriage return may stand between tokens. -/
def isSpace (b : UInt8) : Bool := b == 0x20 || b == 0x09 || b == 0x0A || b == 0x0D

def isDigit (b : UInt8) : Bool := 0x30 ≤ b && b ≤ 0x39

def digitValue (b : UInt8) : Nat := b.toNat - 0x30

/-- The value of a hexadecimal digit. -/
def hexValue? (b : UInt8) : Option Nat :=
  if 0x30 ≤ b ∧ b ≤ 0x39 then some (b.toNat - 0x30)
  else if 0x41 ≤ b ∧ b ≤ 0x46 then some (b.toNat - 0x41 + 10)
  else if 0x61 ≤ b ∧ b ≤ 0x66 then some (b.toNat - 0x61 + 10)
  else none

/-- The value of four hexadecimal digits. -/
def hexWord? (a b c d : UInt8) : Option Nat := do
  let a ← hexValue? a
  let b ← hexValue? b
  let c ← hexValue? c
  let d ← hexValue? d
  return ((a * 16 + b) * 16 + c) * 16 + d

/-- The byte that a backslash and this byte stand for. -/
def escaped? (b : UInt8) : Option UInt8 :=
  if b = 0x22 ∨ b = 0x5C ∨ b = 0x2F then some b
  else if b = 0x62 then some 0x08
  else if b = 0x66 then some 0x0C
  else if b = 0x6E then some 0x0A
  else if b = 0x72 then some 0x0D
  else if b = 0x74 then some 0x09
  else none

/-! ## Strings -/

/-- Reads the pieces of a string up to its closing quote; the pieces read so far come in reverse. -/
def lexString (done : List Piece) : List UInt8 → Option (List Piece × List UInt8)
  | [] => none
  | b :: rest =>
    if b = 0x22 then some (done.reverse, rest)
    else if b = 0x5C then
      match rest with
      | [] => none
      | c :: rest =>
        if c = 0x75 then
          match rest with
          | h₁ :: h₂ :: h₃ :: h₄ :: rest =>
            match hexWord? h₁ h₂ h₃ h₄ with
            | some u => lexString (.unit u :: done) rest
            | none => none
          | _ => none
        else
          match escaped? c with
          | some e => lexString (.byte e :: done) rest
          | none => none
    else if b < 0x20 then none
    else lexString (.byte b :: done) rest

theorem lexString_length {done pieces : List Piece} {s rest : List UInt8}
    (h : lexString done s = some (pieces, rest)) : rest.length < s.length := by
  fun_induction lexString done s
  all_goals
    simp_all only [Option.some.injEq, Prod.mk.injEq, reduceCtorEq, List.length_cons, forall_const]
    try omega

/-! ## Numbers -/

/-- Reads the digits at the front of a text. -/
def lexDigits (s : List UInt8) : List Nat × List UInt8 :=
  ((s.takeWhile isDigit).map digitValue, s.dropWhile isDigit)

/-- Reads a sign other than the one before a number. -/
def lexSign : List UInt8 → Bool × List UInt8
  | [] => (false, [])
  | b :: rest =>
    if b = 0x2D then (true, rest) else if b = 0x2B then (false, rest) else (false, b :: rest)

/-- Reads a point and the digits after it, of which there is at least one. -/
def lexFraction : List UInt8 → Option (Option (List Nat) × List UInt8)
  | [] => some (none, [])
  | b :: rest =>
    if b = 0x2E then
      match lexDigits rest with
      | ([], _) => none
      | (ds, rest) => some (some ds, rest)
    else some (none, b :: rest)

/-- Reads a power of ten: a letter, maybe a sign, and at least one digit. -/
def lexPower : List UInt8 → Option (Option (Bool × List Nat) × List UInt8)
  | [] => some (none, [])
  | b :: rest =>
    if b = 0x65 ∨ b = 0x45 then
      let (negative, rest) := lexSign rest
      match lexDigits rest with
      | ([], _) => none
      | (ds, rest) => some (some (negative, ds), rest)
    else some (none, b :: rest)

/-- Reads an unsigned number; a leading zero is its only digit before the point. -/
def lexMagnitude (negative : Bool) (s : List UInt8) : Option (Numeral × List UInt8) :=
  match lexDigits s with
  | ([], _) => none
  | (0 :: _ :: _, _) => none
  | (whole, rest) => do
    let (fraction, rest) ← lexFraction rest
    let (power, rest) ← lexPower rest
    return (⟨negative, whole, fraction, power⟩, rest)

theorem lexDigits_length (s : List UInt8) : (lexDigits s).2.length ≤ s.length :=
  (List.dropWhile_suffix _).length_le

theorem lexDigits_length_lt {s : List UInt8} (h : (lexDigits s).1 ≠ []) :
    (lexDigits s).2.length < s.length := by
  cases s with
  | nil => simp [lexDigits] at h
  | cons b s =>
    by_cases hb : isDigit b = true
    · have := (List.dropWhile_suffix (l := s) isDigit).length_le
      simp only [lexDigits, List.dropWhile_cons, hb, if_true, List.length_cons]
      omega
    · simp [lexDigits, hb] at h

theorem lexSign_length (s : List UInt8) : (lexSign s).2.length ≤ s.length := by
  cases s with
  | nil => simp [lexSign]
  | cons b s =>
    rw [lexSign]
    split
    · simp
    · split <;> simp

theorem lexFraction_length {s rest : List UInt8} {fraction : Option (List Nat)}
    (h : lexFraction s = some (fraction, rest)) : rest.length ≤ s.length := by
  cases s with
  | nil => grind [lexFraction]
  | cons b s =>
    have := lexDigits_length s
    grind [lexFraction]

theorem lexPower_length {s rest : List UInt8} {power : Option (Bool × List Nat)}
    (h : lexPower s = some (power, rest)) : rest.length ≤ s.length := by
  cases s with
  | nil => grind [lexPower]
  | cons b s =>
    have := lexSign_length s
    have := lexDigits_length (lexSign s).2
    grind [lexPower]

theorem lexMagnitude_length {negative : Bool} {s rest : List UInt8} {x : Numeral}
    (h : lexMagnitude negative s = some (x, rest)) : rest.length < s.length := by
  have hl := lexDigits_length_lt (s := s)
  unfold lexMagnitude at h
  split at h
  · simp at h
  · simp at h
  · rename_i whole rest' hne _ heq
    simp only [Option.bind_eq_bind, Option.bind_eq_some_iff, Option.pure_def,
      Option.some.injEq, Prod.mk.injEq, Prod.exists] at h
    obtain ⟨fraction, r₁, h₁, power, r₂, h₂, _, rfl⟩ := h
    have hf := lexFraction_length h₁
    have hp := lexPower_length h₂
    rw [heq] at hl
    have hlt : rest'.length < s.length := hl fun hnil => hne hnil
    omega

/-! ## Tokens -/

/-- The bytes of a word of ASCII letters. -/
def word (s : String) : List UInt8 := s.toList.map fun c => c.toUInt8

/-- The token of a bracket, a comma or a colon. -/
def mark? (b : UInt8) : Option Token :=
  if b = 0x5B then some .beginArray
  else if b = 0x5D then some .endArray
  else if b = 0x7B then some .beginObject
  else if b = 0x7D then some .endObject
  else if b = 0x2C then some .comma
  else if b = 0x3A then some .colon
  else none

/-- What follows a word. -/
def after? : List UInt8 → List UInt8 → Option (List UInt8)
  | [], s => some s
  | _ :: _, [] => none
  | a :: w, b :: s => if a = b then after? w s else none

/-- Reads one of the three words, whose first letter is `b`. -/
def lexWord (b : UInt8) (rest : List UInt8) : Option (Token × List UInt8) :=
  if b = 0x6E then (after? (word "ull") rest).map fun rest => (.null, rest)
  else if b = 0x74 then (after? (word "rue") rest).map fun rest => (.boolean true, rest)
  else if b = 0x66 then (after? (word "alse") rest).map fun rest => (.boolean false, rest)
  else none

/-- Reads a token whose first byte is `b`. -/
def next? (b : UInt8) (rest : List UInt8) : Option (Token × List UInt8) :=
  match mark? b with
  | some t => some (t, rest)
  | none =>
    if b = 0x22 then (lexString [] rest).map fun (pieces, rest) => (.string pieces, rest)
    else if b = 0x2D then (lexMagnitude true rest).map fun (x, rest) => (.number x, rest)
    else if isDigit b then (lexMagnitude false (b :: rest)).map fun (x, rest) => (.number x, rest)
    else lexWord b rest

theorem after?_length {w s rest : List UInt8} (h : after? w s = some rest) :
    rest.length ≤ s.length := by
  induction w generalizing s with
  | nil =>
    simp only [after?, Option.some.injEq] at h
    simp [h]
  | cons a w ih =>
    cases s with
    | nil => simp [after?] at h
    | cons b s =>
      rw [after?] at h
      split at h
      · have := ih h
        rw [List.length_cons]
        omega
      · simp at h

theorem lexWord_length {b : UInt8} {rest rest' : List UInt8} {t : Token}
    (h : lexWord b rest = some (t, rest')) : rest'.length ≤ rest.length := by
  simp only [lexWord] at h
  grind [Option.map_eq_some_iff, → after?_length]

/-- A token takes at least one byte. -/
theorem next?_length {b : UInt8} {rest rest' : List UInt8} {t : Token}
    (h : next? b rest = some (t, rest')) : rest'.length ≤ rest.length := by
  simp only [next?] at h
  grind [Option.map_eq_some_iff, → lexString_length, → lexMagnitude_length, → lexWord_length]

/-- The tokens of a text; those read so far come in reverse. -/
def lexFrom (done : List Token) (s : List UInt8) : Option (List Token) :=
  match s with
  | [] => some done.reverse
  | b :: rest =>
    if isSpace b then lexFrom done rest
    else
      match h : next? b rest with
      | none => none
      | some (t, rest') =>
        have := next?_length h
        lexFrom (t :: done) rest'
termination_by s.length
decreasing_by
  all_goals
    simp only [List.length_cons]
    omega

/-- The tokens of a text, `none` where it has a part that is no token. -/
def lex? (s : List UInt8) : Option (List Token) := lexFrom [] s

end Token

end ObjectPile
