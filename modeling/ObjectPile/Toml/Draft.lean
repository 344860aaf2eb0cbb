/-
# Tables under construction

A document is read one statement at a time, and each statement adds to the tables made so far. A
table remembers what brought it about, since that decides what may still be added to it:

* a table opened by a header of its own can be opened only once and is closed to dotted keys;
* a table that only lies on the path to another one can still be opened by a header of its own;
* a table made by a dotted key can be extended by further dotted keys, but not opened;
* values written out in full, inline tables and arrays among them, cannot be added to.

Dotted keys may lead through a table on the path of a header, and through the last table of an array
of tables, but the table in which they end is one that dotted keys have made.
-/
import ObjectPile.Toml.Value

namespace ObjectPile.Toml

/-- What brought a table about. -/
inductive Origin where
  /-- A header of its own. -/
  | header
  /-- A header of a table below it. -/
  | path
  /-- A dotted key. -/
  | dotted
  deriving DecidableEq, Repr, Inhabited

/-- What a key stands for so far. -/
inductive Draft where
  /-- A value written out in full. -/
  | value (v : Value)
  | table (origin : Origin) (entries : List (String × Draft))
  /-- An array of tables, of which the last one is still open. -/
  | tables (closed : List Value) (last : List (String × Draft))
  deriving Inhabited

namespace Draft

/-- Entries of a table under construction. -/
abbrev Entries := List (String × Draft)

mutual

/-- The value that a draft has become. -/
def close : Draft → Value
  | .value v => v
  | .table _ entries => .table (closeEntries entries)
  | .tables closed last => .array (closed ++ [.table (closeEntries last)])

/-- `close` on each entry. -/
def closeEntries : List (String × Draft) → List (String × Value)
  | [] => []
  | (k, d) :: rest => (k, close d) :: closeEntries rest

end

/-- Replaces what a key stands for. -/
def replace (key : String) (d : Draft) (entries : Entries) : Entries :=
  entries.map fun e => if e.1 == key then (key, d) else e

/-- Works on the table at the end of the path of a header, making the tables on the way that are
missing. -/
def descend (f : Entries → Option Entries) : List String → Entries → Option Entries
  | [], entries => f entries
  | key :: path, entries =>
    match entries.lookup key with
    | none => do
      let inner ← descend f path []
      return entries ++ [(key, .table .path inner)]
    | some (.table origin inner) => do
      let inner ← descend f path inner
      return replace key (.table origin inner) entries
    | some (.tables closed last) => do
      let last ← descend f path last
      return replace key (.tables closed last) entries
    | some (.value _) => none

/-- Gives a key its value, unless it has one. -/
def assign (key : String) (v : Value) (entries : Entries) : Option Entries :=
  match entries.lookup key with
  | none => some (entries ++ [(key, .value v)])
  | some _ => none

/-- Opens the table of a key by a header. -/
def openTable (key : String) (entries : Entries) : Option Entries :=
  match entries.lookup key with
  | none => some (entries ++ [(key, .table .header [])])
  | some (.table .path inner) => some (replace key (.table .header inner) entries)
  | some _ => none

/-- Opens one more table of the array of tables of a key. -/
def openNext (key : String) (entries : Entries) : Option Entries :=
  match entries.lookup key with
  | none => some (entries ++ [(key, .tables [] [])])
  | some (.tables closed last) =>
    some (replace key (.tables (closed ++ [.table (closeEntries last)]) []) entries)
  | some _ => none

/-- Works on the last key of the path of a header, in the table that the others lead to. -/
def atPath (f : String → Entries → Option Entries) (path : List String) (entries : Entries) :
    Option Entries :=
  match path.getLast? with
  | none => none
  | some key => descend (f key) path.dropLast entries

/-- Whether a dotted key with this many keys left to go may enter a table of an origin. -/
def admits (origin : Origin) (left : Nat) : Bool :=
  match origin with
  | .header => false
  | .path => 1 < left
  | .dotted => true

/-- Gives the key at the end of a dotted path its value, making the tables on the way that are
missing. -/
def assignAt (v : Value) : List String → Entries → Option Entries
  | [], _ => none
  | [key], entries => assign key v entries
  | key :: path, entries =>
    match entries.lookup key with
    | none => do
      let inner ← assignAt v path []
      return entries ++ [(key, .table .dotted inner)]
    | some (.table origin inner) =>
      if admits origin path.length then do
        let inner ← assignAt v path inner
        return replace key (.table origin inner) entries
      else none
    | some (.tables closed last) =>
      if admits .path path.length then do
        let last ← assignAt v path last
        return replace key (.tables closed last) entries
      else none
    | some (.value _) => none

end Draft

end ObjectPile.Toml
