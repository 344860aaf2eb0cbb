/-
# Errors of piles

Why an operation on a pile does not succeed.
-/
import ObjectPile.Codec.Basic
import ObjectPile.Config.Error
import ObjectPile.Pile.State
import ObjectPile.Pointer

namespace ObjectPile

/-- The operations that some states of a pile do not permit. -/
inductive GuardedOperation where
  | configure
  | start
  deriving DecidableEq, Repr, Inhabited

def GuardedOperation.name : GuardedOperation → String
  | .configure => "configure"
  | .start => "start"

/-- An error of an operation on a pile. -/
inductive PileError where
  /-- The pointer names no live object of the pile. -/
  | accessViolation (pointer : Pointer)
  /-- The payload needs another segment, and the limits do not allow one. -/
  | outOfSpace (requested segmentCount allocatedBytes : Nat)
  /-- The payload fits into no segment. -/
  | payloadTooLarge (length max : Nat)
  | invalidState (name : Option String) (state : PileState) (operation : GuardedOperation)
  /-- The object was stored by another codec. -/
  | codecMismatch (expected actual : CodecVersion)
  | config (error : ConfigError)
  | codec (error : CodecError)
  deriving DecidableEq, Repr, Inhabited

def PileError.message : PileError → String
  | .accessViolation pointer =>
    "pile access violation: pointer " ++ pointer.text ++ " does not refer to a live object"
  | .outOfSpace requested segmentCount allocatedBytes =>
    s!"pile is out of space: cannot store {requested} bytes with {segmentCount} segments " ++
      s!"({allocatedBytes} bytes) already allocated"
  | .payloadTooLarge length max =>
    s!"payload of {length} bytes exceeds the largest storable payload of {max} bytes"
  | .invalidState name state operation =>
    "pile '" ++ name.getD unnamed ++ "' cannot " ++ operation.name ++ " while " ++ state.name
  | .codecMismatch expected actual =>
    "payload was stored by codec " ++ actual.name ++ " but codec " ++ expected.name ++
      " was asked to decode it"
  | .config error => error.message
  | .codec error => error.message

end ObjectPile
