/-
# Lifecycle states

A pile is created, maybe configured, then started and in the end stopped.
-/
namespace ObjectPile

/-- The state of a pile's life. -/
inductive PileState where
  | created
  | configured
  /-- Objects are accepted. -/
  | started
  /-- All memory is released and nothing is accepted any more. -/
  | stopped
  deriving DecidableEq, Repr, Inhabited

def PileState.name : PileState → String
  | .created => "created"
  | .configured => "configured"
  | .started => "started"
  | .stopped => "stopped"

end ObjectPile
