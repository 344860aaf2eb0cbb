/-
# Configuration documents

A TOML document holds the sections of any number of piles under the key `pile` of one of its tables.
The key has an array with a section each, or a single section. A section is a table of options; an
array of all seven of them in their order counts as one too. Where an option is a text, a section of
a document may have a date-time, which counts as its normal form; a section that is a document of
its own may not.

* `ConfigSection.ofToml` reads a section that is a document of its own.
* `ConfigDocument.ofTomlAt` reads the sections in the table at a path.
-/
import ObjectPile.Config.Section
import ObjectPile.Text.Blank
import ObjectPile.Toml.Document

namespace ObjectPile

namespace ConfigSection

open Toml (Value Table)

/-- The text that a value stands for. -/
def string? : Value → Option String
  | .string s => some s
  | .datetime d => some d.text
  | _ => none

def integer? : Value → Option Int
  | .integer n => some n
  | _ => none

/-- A list of chunk sizes in either spelling. -/
def sizes? : Value → Option SizesSpec
  | .array items => (items.mapM integer?).map .list
  | v => (string? v).map .text

/-- The section with the option of a key. -/
def set? (c : ConfigSection) (key : String) (v : Value) : Option ConfigSection :=
  if key = "name" then (string? v).map fun s => { c with name := some s }
  else if key = ConfigOption.allocMode.key then
    (string? v).map fun s => { c with allocMode := some s }
  else if key = ConfigOption.freeListSize.key then
    (integer? v).map fun n => { c with freeListSize := some n }
  else if key = ConfigOption.maxSegmentLimit.key then
    (integer? v).map fun n => { c with maxSegmentLimit := some n }
  else if key = ConfigOption.segmentSize.key then
    (integer? v).map fun n => { c with segmentSize := some n }
  else if key = ConfigOption.maxMemoryLimit.key then
    (integer? v).map fun n => { c with maxMemoryLimit := some n }
  else if key = ConfigOption.freeChunkSizes.key then
    (sizes? v).map fun sizes => { c with freeChunkSizes := some sizes }
  else none

/-- The options in a table, which has no other keys. -/
def ofTable? (t : Table) : Option ConfigSection :=
  t.foldlM (fun c entry => c.set? entry.1 entry.2) {}

/-- The keys of a section in their order. -/
def keys : List String :=
  ["name", ConfigOption.allocMode.key, ConfigOption.freeListSize.key,
    ConfigOption.maxSegmentLimit.key, ConfigOption.segmentSize.key,
    ConfigOption.maxMemoryLimit.key, ConfigOption.freeChunkSizes.key]

/-- The section that a value spells. -/
def ofValue? : Value → Option ConfigSection
  | .table t => ofTable? t
  | .array items => if items.length = keys.length then ofTable? (keys.zip items) else none
  | _ => none

/-- The section in the root table of a document, where date-times are no texts. -/
def ofRoot? (t : Table) : Option ConfigSection :=
  if t.any fun entry => entry.2.isDatetime then none else ofTable? t

/-- The section that a text spells. -/
def ofToml (text : String) : Except ConfigError ConfigSection :=
  match (Toml.parse? text).bind ofRoot? with
  | some c => .ok c
  | none => .error .malformed

end ConfigSection

/-- The sections of a configuration, at most one for each pile. -/
structure ConfigDocument where
  sections : List ConfigSection
  deriving DecidableEq, Repr, Inhabited

namespace ConfigDocument

open Toml (Value Table)

/-- The first name that a later section has as well. -/
def repeated? : List ConfigSection → Option (Option String)
  | [] => none
  | c :: rest => if rest.any fun d => d.name == c.name then some c.name else repeated? rest

/-- The document of some sections. -/
def ofSections (sections : List ConfigSection) : Except ConfigError ConfigDocument :=
  match repeated? sections with
  | some name => .error (.duplicateSection name)
  | none => .ok ⟨sections⟩

/-- The section for the pile of a name, or for the unnamed pile. -/
def section? (d : ConfigDocument) (name : Option String) : Option ConfigSection :=
  d.sections.find? fun c => c.name == name

/-- The key of the sections. -/
def sectionKey : String := "pile"

/-- The sections that the value of their key spells; the first bad one fails. -/
def sectionsOf? : Option Value → Option (List ConfigSection)
  | none => some []
  | some (.array items) => items.mapM ConfigSection.ofValue?
  | some v => (ConfigSection.ofValue? v).map ([·])

/-- The document in a table. -/
def ofTable (t : Table) : Except ConfigError ConfigDocument :=
  match sectionsOf? (t.get? sectionKey) with
  | none => .error .malformed
  | some sections => ofSections sections

/-- Where the keys of a path lead. -/
inductive Destination where
  | table (t : Table)
  /-- Something else than a table has the name of one. -/
  | blocked
  /-- There is nothing of some name. -/
  | missing
  deriving Inhabited

/-- Follows the keys of a path. -/
def follow : List String → Table → Destination
  | [], t => .table t
  | key :: keys, t =>
    match t.get? key with
    | some (.table inner) => follow keys inner
    | some _ => .blocked
    | none => .missing

/-- The keys of a path, which has points between them; empty ones do not count. -/
def pathKeys (path : String) : List String :=
  ((Text.splitOn '.' path.toList).filter fun key => !key.isEmpty).map String.ofList

/-- The document in the table at a path below another one. A path that leads nowhere gives the
document without sections. -/
def ofTableAt (root : Table) (path : String) : Except ConfigError ConfigDocument :=
  match follow (pathKeys path) root with
  | .table t => ofTable t
  | .blocked => .error (.invalidPath path)
  | .missing => .ok ⟨[]⟩

/-- The document in the table at a path of a text. -/
def ofTomlAt (text path : String) : Except ConfigError ConfigDocument :=
  match Toml.parse? text with
  | none => .error .malformed
  | some root => ofTableAt root path

/-- The document in the root table of a text. -/
def ofToml (text : String) : Except ConfigError ConfigDocument := ofTomlAt text ""

end ConfigDocument

end ObjectPile
