/-
# Shapes of JSON values

A shape names a type of values that are kept as JSON. `Shape.conform?` decides whether a value has
a shape and brings it into the form in which that shape is written; `Shape.read?` reads a text.

Shapes are strict about kinds: no text stands for a number, no double for a whole number, and a
whole number for a double only where the shape is `double`.
-/
import ObjectPile.Json.Tree

namespace ObjectPile

/-- A type of values that are kept as JSON. -/
inductive Shape where
  /-- Any value. -/
  | value
  | boolean
  /-- A whole number below 2 ^ 8. -/
  | byte
  /-- A whole number below 2 ^ 64. -/
  | unsigned
  /-- A whole number from -2 ^ 63 to below 2 ^ 63. -/
  | signed
  | double
  | string
  /-- An array of signed numbers. -/
  | integers
  /-- An object of signed numbers. -/
  | integerMap
  /-- An object with the six fields of `Shape.recordFields`. -/
  | record
  /-- A map whose keys are lists of numbers. JSON has no such keys, so only the empty one can be
  written. -/
  | pairs
  deriving DecidableEq, Repr, Inhabited

namespace Shape

open Json

/-- A whole number within bounds. -/
def integerIn? (low high : Int) : Json → Option Json
  | .integer n => if low ≤ n ∧ n ≤ high then some (.integer n) else none
  | _ => none

def unsigned? : Json → Option Json := integerIn? 0 maxWord

def signed? : Json → Option Json := integerIn? (-(maxSigned : Int) - 1) maxSigned

def boolean? : Json → Option Json
  | .boolean b => some (.boolean b)
  | _ => none

def string? : Json → Option Json
  | .string s => some (.string s)
  | _ => none

/-- A double, or the one nearest to a whole number. -/
def double? : Json → Option Json
  | .double x => some (.double x)
  | .integer n => (Binary64.ofNat? n.natAbs).map fun x => .double (x.withSign (n < 0))
  | _ => none

/-- An array whose items all have a form. -/
def arrayOf? (item? : Json → Option Json) : Json → Option Json
  | .array items => (items.mapM item?).map .array
  | _ => none

/-- The value of a form, or null. -/
def orNull? (form? : Json → Option Json) : Json → Option Json
  | .null => some .null
  | v => form? v

/-! ## Records -/

/-- The fields of a record in the order in which they are written, each with its form. -/
def recordFields : List (String × (Json → Option Json)) :=
  [("id", unsigned?), ("name", string?), ("active", boolean?), ("ratio", double?),
    ("tags", arrayOf? string?), ("parent", orNull? signed?)]

/-- The names of the fields of a record. -/
def recordNames : List String := recordFields.map Prod.fst

/-- The one field that may be missing, which then is null. -/
def optionalField : String := "parent"

/-- The only member of a key; a field that may be missing counts as null. -/
def onlyMember? (key : String) (members : List (String × Json)) : Option Json :=
  match members.filter fun m => m.1 == key with
  | [] => if key = optionalField then some .null else none
  | [m] => some m.2
  | _ => none

/-- A field of a record with its value in form. -/
def field? (f : String × (Json → Option Json)) (v : Json) : Option (String × Json) :=
  (f.2 v).map fun v => (f.1, v)

/-- A record, spelled as an object with further members or as an array of all its fields. -/
def record? : Json → Option Json
  | .object members =>
    (recordFields.mapM fun f => (onlyMember? f.1 members).bind (field? f)).map .object
  | .array items =>
    if items.length = recordFields.length then
      ((recordFields.zip items).mapM fun fv => field? fv.1 fv.2).map .object
    else none
  | _ => none

/-- One entry of a map with lists of numbers as keys. -/
def pair? : Json → Option Json
  | .array [key, v] => do
    let key ← arrayOf? signed? key
    let v ← signed? v
    return .array [key, v]
  | _ => none

/-- The value in the form of a shape, if it has that shape. -/
def conform? : Shape → Json → Option Json
  | .value, v => some v.sorted
  | .boolean, v => boolean? v
  | .byte, v => integerIn? 0 255 v
  | .unsigned, v => unsigned? v
  | .signed, v => signed? v
  | .double, v => double? v
  | .string, v => string? v
  | .integers, v => arrayOf? signed? v
  | .integerMap, .object members =>
    (members.mapM fun (m : String × Json) => field? (m.1, signed?) m.2).map fun members =>
      (Json.object members).sorted
  | .integerMap, _ => none
  | .record, v => record? v
  | .pairs, v => arrayOf? pair? v

/-! ## Reading -/

/-- The value of a tree, without the members of an outermost object that are no fields of a record:
their contents are not looked at. -/
def recordValue? : Tree → Option Json
  | .object members => do
    let named ← members.mapM fun (key, t) => (Tree.text? key).map fun key => (key, t)
    let known := named.filter fun m => recordNames.contains m.1
    let values ← known.mapM fun (key, t) => (t.value? (maxDepth - 1)).map fun v => (key, v)
    return .object values
  | t => t.value? maxDepth

/-- The value of a shape that a text spells. -/
def read? (shape : Shape) (text : List UInt8) : Option Json := do
  let tree ← Tree.parse? text
  let v ← match shape with
    | .record => recordValue? tree
    | _ => tree.value? maxDepth
  shape.conform? v

end Shape

end ObjectPile
