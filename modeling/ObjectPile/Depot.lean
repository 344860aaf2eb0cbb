/-
# Depots

All piles of a program. Each pile is numbered when it is made, beginning with one, and no number is
used twice; the pile of number `n` stands at place `n - 1`.
-/
import ObjectPile.Pile.Builder
import ObjectPile.Pile.Basic

namespace ObjectPile

/-- The piles made so far, in the order of their numbers. -/
structure Depot where
  piles : Array Pile := #[]
  deriving Inhabited

namespace Depot

/-- The number of the next pile. -/
def nextId (d : Depot) : Nat := d.piles.size + 1

/-- Adds the pile made for the next number. -/
def add (d : Depot) (make : Nat → Pile) : Nat × Depot :=
  let id := d.nextId
  (id, ⟨d.piles.push (make id)⟩)

/-- Adds a pile with standard settings. -/
def create (d : Depot) (name : Option String) : Nat × Depot := d.add (Pile.create · name)

/-- Adds a pile with the options given; if they are bad no number is used. -/
def build (d : Depot) (b : Builder) : Except ConfigError Nat × Depot :=
  match b.build d.nextId with
  | .error e => (.error e, d)
  | .ok p =>
    let (id, d) := d.add fun _ => p
    (.ok id, d)

/-- There is a pile of this number. -/
def Holds (d : Depot) (id : Nat) : Prop := 0 < id ∧ id - 1 < d.piles.size

instance (d : Depot) (id : Nat) : Decidable (d.Holds id) :=
  inferInstanceAs (Decidable (0 < id ∧ id - 1 < d.piles.size))

/-- The pile of a number. -/
def pile? (d : Depot) (id : Nat) : Option Pile :=
  if id = 0 then none else d.piles[id - 1]?

/-- The result of an operation on one of the piles, with the piles afterwards. -/
structure Outcome (α : Type) where
  result : Except PileError α
  depot : Depot
  events : List Event

/-- Carries out an operation on the pile of a number. -/
def perform {α : Type} (d : Depot) (id : Nat) (h : d.Holds id)
    (operation : Pile → ObjectPile.Outcome α) : Outcome α :=
  let (p, piles) := d.piles.swapAt (id - 1) default h.2
  let outcome := operation p
  ⟨outcome.result, ⟨piles.setIfInBounds (id - 1) outcome.pile⟩, outcome.events⟩

end Depot

end ObjectPile
