/-
# JSON trees

The tree that a row of tokens spells, with the contents of numbers and strings still unread. It is
built by a machine that keeps a stack of the arrays and objects still open and takes one token at a
time, so nesting costs no recursion and has no bound here.

`Tree.value?` reads the contents. It accepts a bounded number of nested arrays and objects, doubles
in range and strings that are well formed.
-/
import ObjectPile.Json.Token
import ObjectPile.Text.Utf8

namespace ObjectPile

/-- A JSON text with its numbers and strings as spelled. -/
inductive Tree where
  | null
  | boolean (b : Bool)
  | number (x : Numeral)
  | string (pieces : List Piece)
  | array (items : List Tree)
  | object (members : List (List Piece × Tree))
  deriving Inhabited

namespace Tree

/-! ## From tokens to trees -/

/-- An array or object that is still open, with its finished parts in reverse order. -/
inductive Frame where
  /-- An array and its items so far. -/
  | items (done : List Tree)
  /-- An object, its members so far and the key whose value is being read. -/
  | members (done : List (List Piece × Tree)) (key : List Piece)

/-- What may come next, inside the frames that are open. -/
inductive State where
  /-- A value. -/
  | value (outer : List Frame)
  /-- The first item of an array, or its end. -/
  | firstItem (outer : List Frame)
  /-- The first key of an object, or its end. -/
  | firstKey (outer : List Frame)
  /-- Another key of an object. -/
  | nextKey (done : List (List Piece × Tree)) (outer : List Frame)
  /-- The colon after a key. -/
  | colon (done : List (List Piece × Tree)) (key : List Piece) (outer : List Frame)
  /-- What may follow a finished value. -/
  | after (tree : Tree) (outer : List Frame)

/-- Takes a token where a value must begin. -/
def State.begin? (outer : List Frame) : Token → Option State
  | .null => some (.after .null outer)
  | .boolean b => some (.after (.boolean b) outer)
  | .number x => some (.after (.number x) outer)
  | .string pieces => some (.after (.string pieces) outer)
  | .beginArray => some (.firstItem outer)
  | .beginObject => some (.firstKey outer)
  | _ => none

/-- Takes one token, if it may come next. -/
def State.step? (state : State) (t : Token) : Option State :=
  match state, t with
  | .value outer, t => begin? outer t
  | .firstItem outer, .endArray => some (.after (.array []) outer)
  | .firstItem outer, t => begin? (.items [] :: outer) t
  | .firstKey outer, .endObject => some (.after (.object []) outer)
  | .firstKey outer, .string key => some (.colon [] key outer)
  | .nextKey done outer, .string key => some (.colon done key outer)
  | .colon done key outer, .colon => some (.value (.members done key :: outer))
  | .after tree (.items done :: outer), .comma => some (.value (.items (tree :: done) :: outer))
  | .after tree (.items done :: outer), .endArray =>
    some (.after (.array (tree :: done).reverse) outer)
  | .after tree (.members done key :: outer), .comma => some (.nextKey ((key, tree) :: done) outer)
  | .after tree (.members done key :: outer), .endObject =>
    some (.after (.object ((key, tree) :: done).reverse) outer)
  | _, _ => none

/-- The finished tree, once nothing is open. -/
def State.finish? : State → Option Tree
  | .after tree [] => some tree
  | _ => none

/-- The tree that a row of tokens spells. -/
def ofTokens? (tokens : List Token) : Option Tree :=
  (tokens.foldlM State.step? (.value [])).bind State.finish?

/-- The tree that a text spells. -/
def parse? (text : List UInt8) : Option Tree :=
  (Token.lex? text).bind ofTokens?

/-! ## Contents -/

/-- Whether a UTF-16 unit is the first half of a pair. -/
def isLeading (u : Nat) : Bool := 0xD800 ≤ u && u ≤ 0xDBFF

/-- Whether a UTF-16 unit is the second half of a pair. -/
def isTrailing (u : Nat) : Bool := 0xDC00 ≤ u && u ≤ 0xDFFF

/-- The code point that a pair of units stands for. -/
def joined (u v : Nat) : Nat := 0x10000 + (u - 0xD800) * 0x400 + (v - 0xDC00)

/-- The UTF-8 bytes of a code point. -/
def codePoint (n : Nat) : List UInt8 := String.utf8EncodeChar (Char.ofNat n)

/-- The bytes of a string; half a pair of units alone has none. Those of the earlier pieces come in
reverse. -/
def pieceBytes? (done : List UInt8) : List Piece → Option (List UInt8)
  | [] => some done.reverse
  | .byte b :: rest => pieceBytes? (b :: done) rest
  | .unit u :: rest =>
    if isLeading u then
      match rest with
      | .unit v :: rest =>
        if isTrailing v then pieceBytes? ((codePoint (joined u v)).reverse ++ done) rest
        else none
      | _ => none
    else if isTrailing u then none
    else pieceBytes? ((codePoint u).reverse ++ done) rest

/-- The text of a string. -/
def text? (pieces : List Piece) : Option String :=
  (pieceBytes? [] pieces).bind Text.ofUtf8?

mutual

/-- The value of a tree with at most `room` levels of arrays and objects. -/
def value? (room : Nat) : Tree → Option Json
  | .null => some .null
  | .boolean b => some (.boolean b)
  | .number x => x.value?
  | .string pieces => (text? pieces).map .string
  | .array items =>
    match room with
    | 0 => none
    | room + 1 => (itemValues? room items).map .array
  | .object members =>
    match room with
    | 0 => none
    | room + 1 => (memberValues? room members).map .object

/-- `value?` on each item. -/
def itemValues? (room : Nat) : List Tree → Option (List Json)
  | [] => some []
  | t :: ts => do
    let v ← value? room t
    let vs ← itemValues? room ts
    return v :: vs

/-- `value?` on each member. -/
def memberValues? (room : Nat) : List (List Piece × Tree) → Option (List (String × Json))
  | [] => some []
  | (key, t) :: rest => do
    let key ← text? key
    let v ← value? room t
    let vs ← memberValues? room rest
    return (key, v) :: vs

end

end Tree

namespace Json

/-- The deepest nesting of arrays and objects that is read. -/
def maxDepth : Nat := 127

/-- The value that a text spells, its members in the order of the text. -/
def parse? (text : List UInt8) : Option Json :=
  (Tree.parse? text).bind (Tree.value? maxDepth)

end Json

end ObjectPile
