/-
# JSON values

A JSON value with whole numbers kept apart from doubles. The members of an object stand in a list;
`Json.sorted` brings them into the order in which values are compared and written: ascending keys,
each key once, with the member that came last.
-/
import ObjectPile.Decimal.Binary64

namespace ObjectPile

/-- A JSON value. -/
inductive Json where
  | null
  | boolean (b : Bool)
  | integer (n : Int)
  | double (x : Binary64)
  | string (s : String)
  | array (items : List Json)
  | object (members : List (String × Json))
  deriving Repr, Inhabited

namespace Json

/-- Puts a member into a list sorted by key, in place of one with the same key. -/
def insertMember (key : String) (value : Json) : List (String × Json) → List (String × Json)
  | [] => [(key, value)]
  | (k, v) :: rest =>
    if key < k then (key, value) :: (k, v) :: rest
    else if key = k then (key, value) :: rest
    else (k, v) :: insertMember key value rest

mutual

/-- The value with the members of all its objects in ascending order of keys, the last one of each
key. -/
def sorted : Json → Json
  | .array items => .array (sortedItems items)
  | .object members => .object (sortedMembers [] members)
  | .null => .null
  | .boolean b => .boolean b
  | .integer n => .integer n
  | .double x => .double x
  | .string s => .string s

/-- `sorted` on each item. -/
def sortedItems : List Json → List Json
  | [] => []
  | v :: vs => sorted v :: sortedItems vs

/-- Inserts members one after the other into a sorted list. -/
def sortedMembers (done : List (String × Json)) : List (String × Json) → List (String × Json)
  | [] => done
  | (k, v) :: rest => sortedMembers (insertMember k (sorted v) done) rest

end

/-- The value of a key in a list of members. -/
def member? (key : String) : List (String × Json) → Option Json
  | [] => none
  | (k, v) :: rest => if k = key then some v else member? key rest

/-- The value of a key of an object. -/
def field? (v : Json) (key : String) : Option Json :=
  match v with
  | .object members => member? key members
  | _ => none

end Json

end ObjectPile
