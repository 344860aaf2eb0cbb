/-
# Reachable segments

The segments that a pile comes to hold are those that storing and releasing make of a new one.
Every one of them represents a view with no chunk in hand: this is what all properties of segments
are drawn from. A generation may be given to several chunks here; that a pile never does so plays no
part for its segments.

* `Segment.Reachable` : the segments that runs of storing and releasing lead to.
* `Represents.resolve?_eq_some_iff` : the pointers that name a chunk are those of the live chunks.
* `Reachable.exists_represents` : each reachable segment represents a settled view.
-/
import ObjectPile.Proofs.Placing

namespace ObjectPile.Segment

variable {policy : AllocationPolicy} {s s' : Segment} {v : View}

/-! ## Pointers to live chunks -/

/-- What a pointer finds in a segment at a live chunk. -/
theorem Represents.resolve?_of_live (h : Represents policy s v) {c : Chunk} (hc : c ∈ v.chunks)
    (hsize : headerSize ≤ c.size) {generation : Nat} {version : CodecVersion}
    {payload : List UInt8} (hlive : c.content = .live generation version payload) :
    s.resolve? c.start generation = some ⟨c.start, c.size, payload.length, version⟩ ∧
      s.payload ⟨c.start, c.size, payload.length, version⟩ = payload := by
  have hshows := h.carved.shows c hc
  unfold Shows at hshows
  rw [hlive] at hshows
  obtain ⟨hcsize, hcgen, hne, hversion, hlength, -, hread⟩ := hshows
  have hmod := h.carved.tiling.start_mod c hc
  have hstop := h.carved.tiling.stop_le hc
  unfold Chunk.stop at hstop
  unfold headerSize at hsize
  refine ⟨resolve?_eq_some_iff.2 ⟨hne, hmod, by omega, ?_, hcgen, ?_⟩, hread⟩
  · exact (h.carved.isStart_iff hmod).2 ⟨c, hc, rfl⟩
  · rw [hcsize, hversion, hlength]

/-- **The pointers that name a chunk are those of the live chunks.** -/
theorem Represents.resolve?_eq_some_iff (hp : policy.Sound) (h : Represents policy s v)
    (hsettled : v.Settled) {offset generation : Nat} {chunk : LiveChunk} :
    s.resolve? offset generation = some chunk ↔
      ∃ c ∈ v.chunks, ∃ version payload, c.start = offset ∧
        c.content = .live generation version payload ∧
          chunk = ⟨offset, c.size, payload.length, version⟩ := by
  constructor
  · intro hresolve
    -- the mark singles out a chunk, and only a live one carries a generation that is not zero
    obtain ⟨hne, hmod, hlt, hstart, hgen, rfl⟩ := Segment.resolve?_eq_some_iff.1 hresolve
    obtain ⟨c, hc, rfl⟩ := (h.carved.isStart_iff hmod).1 hstart
    have hshows := h.carved.shows c hc
    unfold Shows at hshows
    cases hcontent : c.content with
    | live g v payload =>
      rw [hcontent] at hshows
      obtain ⟨hcsize, hcgen, -, hversion, hlength, -⟩ := hshows
      refine ⟨c, hc, v, payload, rfl, ?_, ?_⟩
      · rw [hcontent, ← hcgen, hgen]
      · rw [hcsize, hversion, hlength]
    | free =>
      rw [hcontent] at hshows
      exact absurd (hgen.symm.trans hshows.2) hne
    | taken => exact absurd hcontent (hsettled c hc)
  · rintro ⟨c, hc, version, payload, rfl, hlive, rfl⟩
    have hsize := h.carved.size_ge hp hc
    exact (h.resolve?_of_live hc (by unfold headerSize; omega) hlive).1

/-! ## Runs -/

/-- **The segments that runs of storing and releasing lead to.** Payloads are sent to a class by
their length and stamped with a word that is not zero, and only live chunks are released. -/
inductive Reachable (policy : AllocationPolicy) : Segment → Prop
  | empty : Reachable policy (empty policy)
  | store {s s' : Segment} {payload : List UInt8} {version : CodecVersion}
      {generation offset : Nat} : Reachable policy s → generation ≠ 0 → generation ≤ maxWord →
      s.store? policy (policy.classes.classify payload.length) payload version generation =
        some (offset, s') → Reachable policy s'
  | release {s : Segment} {offset generation : Nat} {chunk : LiveChunk} : Reachable policy s →
      s.resolve? offset generation = some chunk → Reachable policy (s.release policy chunk)

/-- The segment after a payload is stored, or as it is if there is no room. -/
def storing (policy : AllocationPolicy) (s : Segment) (payload : List UInt8)
    (version : CodecVersion) (generation : Nat) : Segment :=
  ((s.store? policy (policy.classes.classify payload.length) payload version generation).map
    Prod.snd).getD s

/-- The segment after the chunk that a pointer names is released, if it names one. -/
def releasing (policy : AllocationPolicy) (s : Segment) (offset generation : Nat) : Segment :=
  (s.resolve? offset generation).elim s (s.release policy)

theorem Reachable.storing (h : Reachable policy s) (payload : List UInt8) (version : CodecVersion)
    {generation : Nat} (hgen : generation ≠ 0) (hmax : generation ≤ maxWord) :
    Reachable policy (storing policy s payload version generation) := by
  unfold Segment.storing
  cases hstore : s.store? policy (policy.classes.classify payload.length) payload version generation
    with
  | none => exact h
  | some stored => exact h.store hgen hmax hstore

theorem Reachable.releasing (h : Reachable policy s) (offset generation : Nat) :
    Reachable policy (releasing policy s offset generation) := by
  unfold Segment.releasing
  cases hresolve : s.resolve? offset generation with
  | none => exact h
  | some chunk => exact h.release hresolve

/-! ## What a step does to the view -/

/-- Storing leads from a settled view to a settled view with one more live chunk. -/
theorem Represents.exists_of_store? (hp : policy.Sound) (h : Represents policy s v)
    (hsettled : v.Settled) {payload : List UInt8} {version : CodecVersion}
    {generation offset : Nat} (hgen : generation ≠ 0) (hmax : generation ≤ maxWord)
    (hstore : s.store? policy (policy.classes.classify payload.length) payload version generation =
      some (offset, s')) :
    ∃ v' : View, Represents policy s' v' ∧ v'.Settled ∧ ∃ size before after,
      v.live = before ++ after ∧
        v'.live = before ++ ⟨offset, size, .live generation version payload⟩ :: after := by
  obtain ⟨placement, hand, ho, rfl, hrep⟩ := h.store? hp hgen hmax hstore
  refine ⟨_, hrep, Hand.settled_put (ho.lone hsettled) (by simp), hand.size,
    hand.before.reverse.filter Chunk.isLive, hand.after.filter Chunk.isLive, ?_, ?_⟩
  · rw [← ho.live_eq, Hand.live, List.filter_append]
  · rw [View.live, Hand.put, List.filter_append, List.filter_cons_of_pos rfl]

/-- Releasing leads from a settled view to a settled view with one live chunk less. -/
theorem Represents.exists_of_release (hp : policy.Sound) (h : Represents policy s v)
    (hsettled : v.Settled) {offset generation : Nat} {chunk : LiveChunk}
    (hresolve : s.resolve? offset generation = some chunk) :
    ∃ v' : View, Represents policy (s.release policy chunk) v' ∧ v'.Settled ∧
      ∃ c before after, c.start = offset ∧
        (∃ payload, c.content = .live generation chunk.version payload ∧
          payload.length = chunk.length) ∧
        v.live = before ++ c :: after ∧ v'.live = before ++ after := by
  obtain ⟨c, hc, version, payload, rfl, hlive, rfl⟩ :=
    (h.resolve?_eq_some_iff hp hsettled).1 hresolve
  obtain ⟨pre, post, hchunks⟩ := List.append_of_mem hc
  obtain ⟨cs, lists⟩ := v
  obtain rfl : cs = pre ++ c :: post := hchunks
  have hisLive : c.isLive = true := (c.isLive_eq_true_iff).2 ⟨_, _, _, hlive⟩
  have hlone : Hand.Lone ⟨pre.reverse, c.start, c.size, post, lists⟩ := by
    intro d hd
    rw [List.reverse_reverse] at hd
    exact hsettled d (Represents.mem_of_mem_append hd)
  refine ⟨_, h.release hp hisLive hsettled rfl rfl, Hand.settled_release policy hlone, c, pre.filter
    Chunk.isLive, post.filter Chunk.isLive, rfl, ⟨payload, hlive, rfl⟩, ?_, ?_⟩
  · simp [View.live, List.filter_append, hisLive]
  · rw [Hand.live_release, Hand.live, List.reverse_reverse, List.filter_append]

/-- **Every reachable segment represents a view with no chunk in hand.** -/
theorem Reachable.exists_represents (hp : policy.Sound) (h : Reachable policy s) :
    ∃ v : View, Represents policy s v ∧ v.Settled := by
  induction h with
  | empty => exact ⟨_, represents_empty policy, by simp [View.Settled]⟩
  | store _ hgen hmax hstore ih =>
    obtain ⟨v, hrep, hsettled⟩ := ih
    obtain ⟨v', hrep', hsettled', -⟩ := hrep.exists_of_store? hp hsettled hgen hmax hstore
    exact ⟨v', hrep', hsettled'⟩
  | release _ hresolve ih =>
    obtain ⟨v, hrep, hsettled⟩ := ih
    obtain ⟨v', hrep', hsettled', -⟩ := hrep.exists_of_release hp hsettled hresolve
    exact ⟨v', hrep', hsettled'⟩

end ObjectPile.Segment
