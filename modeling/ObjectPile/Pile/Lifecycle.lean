/-
# Lifecycle

Configuring, starting, purging and stopping a pile. A pile can be configured until it is started,
and started until it is stopped. Purging and stopping give up all memory, and no pointer that was
given out before names an object afterwards.
-/
import ObjectPile.Config.Document
import ObjectPile.Pile.Basic

namespace ObjectPile.Pile

/-- The error of an operation that the state of the pile does not permit. -/
def notPermitted (p : Pile) (operation : GuardedOperation) : PileError :=
  .invalidState p.name p.state operation

/-- Whether the pile has not been started yet. -/
def isConfigurable (p : Pile) : Bool := p.state == .created || p.state == .configured

/-- Applies a section on top of the settings. The pile takes the name of the section, if that has
one. -/
def configure (p : Pile) (options : ConfigSection) : Outcome Unit :=
  if p.isConfigurable then
    match p.settings.apply options with
    | .error e => .unchanged p (.error (.config e))
    | .ok settings =>
      let p : Pile := { p with
        name := options.name <|> p.name
        settings := settings
        policy := .ofSettings settings
        state := .configured }
      ⟨.ok (), p, [.configured p.displayName settings.allocMode settings.segmentSize]⟩
  else .unchanged p (.error (p.notPermitted .configure))

/-- Applies the section of a document for the pile. Without one the settings stay, but the pile
counts as configured. -/
def configureFrom (p : Pile) (document : ConfigDocument) : Outcome Unit :=
  match document.section? p.name with
  | some options => p.configure options
  | none =>
    if p.isConfigurable then ⟨.ok (), { p with state := .configured }, []⟩
    else .unchanged p (.error (p.notPermitted .configure))

/-- Lets the pile accept objects. -/
def start (p : Pile) : Outcome Unit :=
  match p.state with
  | .created | .configured =>
    ⟨.ok (), { p with state := .started },
      [.started p.displayName p.settings.allocMode p.settings.segmentSize]⟩
  | .started => .unchanged p (.ok ())
  | .stopped => .unchanged p (.error (p.notPermitted .start))

/-- The pile without its segments. -/
def releaseAll (p : Pile) : Pile :=
  { p with slots := #[], objectCount := 0, utilizedBytes := 0, segmentCount := 0, putHint := 0 }

/-- Removes all objects. -/
def purge (p : Pile) : Outcome Unit :=
  ⟨.ok (), p.releaseAll, [.purged p.displayName (occupied p.slots)]⟩

/-- Removes all objects and accepts no more. -/
def stop (p : Pile) : Outcome Unit :=
  if p.state = .stopped then .unchanged p (.ok ())
  else
    ⟨.ok (), { p.releaseAll with state := .stopped }, [.stopped p.displayName (occupied p.slots)]⟩

end ObjectPile.Pile
