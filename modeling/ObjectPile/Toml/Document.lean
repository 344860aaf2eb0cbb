/-
# TOML documents

Reading a TOML 1.1 document. `Toml.parse?` takes the text one line after the other, except that a
value may go over several lines, and answers `none` where the text is no TOML or has a number that
64 bits cannot hold.
-/
import ObjectPile.Toml.Draft
import ObjectPile.Toml.Scalar

namespace ObjectPile.Toml

/-- The deepest nesting of arrays and inline tables that is read. -/
def maxDepth : Nat := 80

mutual

/-- Reads a value with at most `room` levels of arrays and inline tables. The first argument bounds
the number of steps. -/
def value? : Nat → Nat → Reader Value
  | 0, _, _ => none
  | steps + 1, room, s =>
    match s, room with
    | '[' :: rest, room + 1 => do
      let (items, rest) ← items? steps room (← skipAll? rest)
      return (.array items, rest)
    | '\x7b' :: rest, room + 1 => do
      let (entries, rest) ← entries? steps room [] (← skipAll? rest)
      return (.table (Draft.closeEntries entries), rest)
    | '"' :: _, _ => (string? s).map fun (text, rest) => (.string text, rest)
    | '\'' :: _, _ => (string? s).map fun (text, rest) => (.string text, rest)
    | _, _ => scalar? s

/-- Reads the further items of an array and its end. -/
def items? : Nat → Nat → Reader (List Value)
  | 0, _, _ => none
  | steps + 1, room, s =>
    match s with
    | ']' :: rest => some ([], rest)
    | _ => do
      let (v, rest) ← value? steps room s
      match ← skipAll? rest with
      | ']' :: rest => return ([v], rest)
      | ',' :: rest => do
        let (vs, rest) ← items? steps room (← skipAll? rest)
        return (v :: vs, rest)
      | _ => none

/-- Reads the further entries of an inline table and its end. -/
def entries? : Nat → Nat → Draft.Entries → Reader Draft.Entries
  | 0, _, _, _ => none
  | steps + 1, room, done, s =>
    match s with
    | '\x7d' :: rest => some (done, rest)
    | _ => do
      let (path, rest) ← keyPath? s
      match ← skipAll? rest with
      | '=' :: rest => do
        let (v, rest) ← value? steps room (← skipAll? rest)
        let done ← Draft.assignAt v path done
        match ← skipAll? rest with
        | '\x7d' :: rest => return (done, rest)
        | ',' :: rest => entries? steps room done (← skipAll? rest)
        | _ => none
      | _ => none

end

/-! ## Statements -/

/-- One statement of a document. -/
inductive Statement where
  /-- The header of a table. -/
  | table (path : List String)
  /-- The header of one more table of an array of tables. -/
  | nextTable (path : List String)
  | assign (path : List String) (v : Value)
  deriving Inhabited

/-- Reads the path of a header and the brackets after it. -/
def header? (closing : List Char) : Reader (List String) := fun s => do
  let (path, rest) ← keyPath? (skipSpaces s)
  let rest ← closing.isPrefixOf? (skipSpaces rest)
  return (path, rest)

/-- Reads a statement. -/
def statement? : Reader Statement := fun s =>
  match s with
  | '[' :: '[' :: rest => (header? [']', ']'] rest).map fun (path, rest) => (.nextTable path, rest)
  | '[' :: rest => (header? [']'] rest).map fun (path, rest) => (.table path, rest)
  | _ => do
    let (path, rest) ← keyPath? s
    match skipSpaces rest with
    | '=' :: rest => do
      let rest := skipSpaces rest
      let (v, rest) ← value? (2 * rest.length + 1) maxDepth rest
      return (.assign path v, rest)
    | _ => none

/-- Reads the statements of a document; the first argument bounds their number. -/
def statements? : Nat → List Char → Option (List Statement)
  | 0, _ => none
  | lines + 1, s => do
    match ← skipAll? s with
    | [] => return []
    | rest => do
      let (statement, rest) ← statement? rest
      let rest ← skipComment? (skipSpaces rest)
      match rest, afterNewline? rest with
      | [], _ => return [statement]
      | _, some rest => return statement :: (← statements? lines rest)
      | _, none => none

/-! ## Documents -/

/-- The tables made by the statements so far, and the path of the table that is open. -/
structure Progress where
  entries : Draft.Entries := []
  current : List String := []

/-- Carries out one statement, if the tables made so far permit it. -/
def Progress.step? (p : Progress) : Statement → Option Progress
  | .table path => (Draft.atPath Draft.openTable path p.entries).map (⟨·, path⟩)
  | .nextTable path => (Draft.atPath Draft.openNext path p.entries).map (⟨·, path⟩)
  | .assign path v =>
    (Draft.descend (Draft.assignAt v path) p.current p.entries).map (⟨·, p.current⟩)

/-- A text without the byte order mark at its front. -/
def withoutMark (s : List Char) : List Char :=
  match s with
  | '\uFEFF' :: rest => rest
  | _ => s

/-- The root table of a document. -/
def parse? (text : String) : Option Table := do
  let s := withoutMark text.toList
  let statements ← statements? (s.length + 1) s
  let progress ← statements.foldlM Progress.step? {}
  settleEntries? (Draft.closeEntries progress.entries)

end ObjectPile.Toml
