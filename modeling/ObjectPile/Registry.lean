/-
# Registries

A set of piles made from one configuration document: an unnamed pile, configured by the unnamed
section if there is one, and one pile for each named section. A registry knows its piles by their
numbers in the depot.
-/
import ObjectPile.Depot
import ObjectPile.Pile.Lifecycle

namespace ObjectPile

/-- The numbers of the unnamed pile and of the named ones, in the order of their sections. -/
structure Registry where
  unnamed : Nat
  named : List (String × Nat)
  deriving DecidableEq, Repr, Inhabited

namespace Registry

/-- Adds a registry with nothing but an unnamed pile with standard settings. -/
def create (d : Depot) : Registry × Depot :=
  let (id, d) := d.create none
  (⟨id, []⟩, d)

/-- The result of making or using a registry. -/
abbrev Result (α : Type) := Depot.Outcome α

/-- Makes a pile and carries out an operation on it; gives its number. -/
def addWith (d : Depot) (name : Option String) (operation : Pile → Outcome Unit) : Result Nat :=
  let outcome := operation (Pile.create d.nextId name)
  let (id, d) := d.add fun _ => outcome.pile
  ⟨outcome.result.map fun _ => id, d, outcome.events⟩

/-- Makes the piles of named sections one after the other, up to the first that fails. -/
def addNamed (d : Depot) : List ConfigSection → Result (List (String × Nat))
  | [] => ⟨.ok [], d, []⟩
  | options :: rest =>
    match options.name with
    | none => addNamed d rest
    | some name =>
      let one := addWith d (some name) fun p => p.configure options
      match one.result with
      | .error e => ⟨.error e, one.depot, one.events⟩
      | .ok id =>
        let others := addNamed one.depot rest
        ⟨others.result.map fun named => (name, id) :: named, others.depot,
          one.events ++ others.events⟩

/-- Makes a registry with a pile for each section of a document. -/
def ofDocument (d : Depot) (document : ConfigDocument) : Result Registry :=
  let one := addWith d none fun p => p.configureFrom document
  match one.result with
  | .error e => ⟨.error e, one.depot, one.events⟩
  | .ok id =>
    let others := addNamed one.depot document.sections
    match others.result with
    | .error e => ⟨.error e, others.depot, one.events ++ others.events⟩
    | .ok named =>
      ⟨.ok ⟨id, named⟩, others.depot,
        one.events ++ others.events ++ [.registryConfigured named.length]⟩

/-- The number of the pile of a name, or of the unnamed pile. -/
def get? (r : Registry) : Option String → Option Nat
  | none => some r.unnamed
  | some name => r.named.lookup name

/-- The names of the named piles in ascending order. -/
def names (r : Registry) : List String := (r.named.map Prod.fst).mergeSort

/-- The numbers of all piles, that of the unnamed one first. -/
def all (r : Registry) : List Nat := r.unnamed :: r.named.map Prod.snd

/-- Carries out an operation on piles one after the other, up to the first that fails. -/
def performAll (operation : Pile → Outcome Unit) (d : Depot) : List Nat → Result Unit
  | [] => ⟨.ok (), d, []⟩
  | id :: ids =>
    if h : d.Holds id then
      let one := d.perform id h operation
      match one.result with
      | .error e => ⟨.error e, one.depot, one.events⟩
      | .ok () =>
        let others := performAll operation one.depot ids
        ⟨others.result, others.depot, one.events ++ others.events⟩
    else performAll operation d ids

/-- Starts every pile; those before one that was stopped stay started. -/
def startAll (r : Registry) (d : Depot) : Result Unit := performAll Pile.start d r.all

/-- Stops every pile. -/
def stopAll (r : Registry) (d : Depot) : Result Unit := performAll Pile.stop d r.all

end Registry

end ObjectPile
