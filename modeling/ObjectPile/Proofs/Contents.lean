/-
# Contents of segments

What a segment answers for an offset and a generation. Storing adds one answer and releasing takes
one away, whatever chunks are cut, merged or moved about on the lists; the count of live chunks and
the bytes of their payloads follow.

* `Segment.lookup` : the payload and the version that an offset and a generation lead to.
* `Segment.liveChunks`, `Segment.storedBytes` : the live chunks and the bytes of their payloads.
* `Reachable.stored`, `Reachable.released` : what storing and releasing do to all three.
* `Reachable.storedBytes_le` : payloads never exceed the segment.
-/
import ObjectPile.Proofs.Integrity

namespace ObjectPile.Segment

/-- The payload and the version that an offset and a generation lead to. -/
def lookup (s : Segment) (offset generation : Nat) : Option (List UInt8 × CodecVersion) :=
  (s.resolve? offset generation).map fun chunk => (s.payload chunk, chunk.version)

/-- The live chunks of a segment, by its marks and their headers. -/
def liveChunks (s : Segment) : List Chunk := s.chunks.filter Chunk.isLive

/-- The bytes of all payloads. -/
def storedBytes (s : Segment) : Nat := (s.liveChunks.map Chunk.payloadLength).sum

/-- What storing a payload does to the contents of a segment. -/
structure Stored (s s' : Segment) (offset generation : Nat) (payload : List UInt8)
    (version : CodecVersion) : Prop where
  lookup_eq : ∀ o g, s'.lookup o g =
    if o = offset ∧ g = generation then some (payload, version) else s.lookup o g
  liveCount_eq : s'.liveCount = s.liveCount + 1
  storedBytes_eq : s'.storedBytes = s.storedBytes + payload.length

/-- What releasing a chunk does to the contents of a segment. -/
structure Released (s s' : Segment) (offset generation length : Nat) : Prop where
  lookup_eq : ∀ o g, s'.lookup o g = if o = offset ∧ g = generation then none else s.lookup o g
  liveCount_eq : s'.liveCount + 1 = s.liveCount
  storedBytes_eq : s'.storedBytes + length = s.storedBytes

variable {policy : AllocationPolicy} {s s' : Segment} {v v' : View}

/-! ## Contents of views -/

/-- The answers of a segment are its live chunks. -/
theorem Represents.lookup_eq_some_iff (hp : policy.Sound) (h : Represents policy s v)
    (hsettled : v.Settled) {offset generation : Nat} {payload : List UInt8}
    {version : CodecVersion} :
    s.lookup offset generation = some (payload, version) ↔
      ∃ size, ⟨offset, size, .live generation version payload⟩ ∈ v.live := by
  unfold lookup
  rw [Option.map_eq_some_iff]
  have hread : ∀ c ∈ v.chunks, ∀ p ver, c.content = .live generation ver p →
      s.payload ⟨c.start, c.size, p.length, ver⟩ = p := by
    intro c hc p ver hlive
    have hsize := h.carved.size_ge hp hc
    exact (h.resolve?_of_live hc (by unfold headerSize; omega) hlive).2
  constructor
  · rintro ⟨chunk, hresolve, heq⟩
    obtain ⟨c, hc, ver, p, rfl, hlive, rfl⟩ := (h.resolve?_eq_some_iff hp hsettled).1 hresolve
    rw [hread c hc p ver hlive] at heq
    obtain ⟨rfl, rfl⟩ := Prod.mk.inj heq
    refine ⟨c.size, List.mem_filter.2 ⟨?_, rfl⟩⟩
    rwa [← hlive]
  · rintro ⟨size, hmem⟩
    obtain ⟨hc, -⟩ := List.mem_filter.1 hmem
    refine ⟨⟨offset, size, payload.length, version⟩, ?_, ?_⟩
    · exact (h.resolve?_eq_some_iff hp hsettled).2 ⟨_, hc, version, payload, rfl, rfl, rfl⟩
    · rw [hread _ hc payload version rfl]

/-- No two live chunks start together. -/
theorem Represents.nodup_live (hp : policy.Sound) (h : Represents policy s v) :
    (v.live.map Chunk.start).Nodup :=
  (h.carved.tiling.nodup_start (Carved.smallest_pos hp)).sublist
    (List.filter_sublist.map Chunk.start)

/-- What is read off a segment that represents a settled view is that view. -/
theorem Represents.liveChunks_eq (hp : policy.Sound) (h : Represents policy s v)
    (hsettled : v.Settled) : s.liveChunks = v.live := by
  rw [← h.view_eq hp hsettled]
  rfl

/-- The counter of a segment is the number of its live chunks. -/
theorem Represents.liveCount_eq (hp : policy.Sound) (h : Represents policy s v)
    (hsettled : v.Settled) : s.liveCount = s.liveChunks.length := by
  rw [h.liveChunks_eq hp hsettled, h.carved.liveCount_eq, List.countP_eq_length_filter]
  rfl

/-- One live chunk more is one answer more. -/
theorem Represents.stored_of_live_eq (hp : policy.Sound) (h : Represents policy s v)
    (hsettled : v.Settled) (h' : Represents policy s' v') (hsettled' : v'.Settled)
    {offset size generation : Nat} {payload : List UInt8} {version : CodecVersion}
    {before after : List Chunk} (hlive : v.live = before ++ after)
    (hlive' : v'.live = before ++ ⟨offset, size, .live generation version payload⟩ :: after) :
    Stored s s' offset generation payload version := by
  refine ⟨?_, ?_, ?_⟩
  · intro o g
    split
    · rename_i heq
      obtain ⟨rfl, rfl⟩ := heq
      rw [h'.lookup_eq_some_iff hp hsettled', hlive']
      exact ⟨size, by simp⟩
    · -- the new chunk answers to its own offset and generation alone
      rename_i hne
      apply Option.ext
      intro x
      obtain ⟨p, ver⟩ := x
      rw [h'.lookup_eq_some_iff hp hsettled', h.lookup_eq_some_iff hp hsettled, hlive, hlive']
      apply exists_congr
      intro n
      have hnew : (⟨o, n, .live g ver p⟩ : Chunk) ≠
          ⟨offset, size, .live generation version payload⟩ := by
        intro heq
        simp only [Chunk.mk.injEq, Content.live.injEq] at heq
        exact hne ⟨heq.1, heq.2.2.1⟩
      simp only [List.mem_append, List.mem_cons, hnew, false_or]
  · rw [h.liveCount_eq hp hsettled, h'.liveCount_eq hp hsettled', h.liveChunks_eq hp hsettled,
      h'.liveChunks_eq hp hsettled', hlive, hlive']
    simp only [List.length_append, List.length_cons]
    omega
  · unfold storedBytes
    rw [h.liveChunks_eq hp hsettled, h'.liveChunks_eq hp hsettled', hlive, hlive']
    simp only [List.map_append, List.map_cons, List.sum_append, List.sum_cons, Chunk.payloadLength]
    omega

/-- One live chunk less is one answer less. -/
theorem Represents.released_of_live_eq (hp : policy.Sound) (h : Represents policy s v)
    (hsettled : v.Settled) (h' : Represents policy s' v') (hsettled' : v'.Settled)
    {generation : Nat} {c : Chunk} {version : CodecVersion} {payload : List UInt8}
    (hc : c.content = .live generation version payload) {before after : List Chunk}
    (hlive : v.live = before ++ c :: after) (hlive' : v'.live = before ++ after) :
    Released s s' c.start generation payload.length := by
  have hnd := h.nodup_live hp
  rw [hlive, List.map_append, List.map_cons, List.nodup_middle, List.nodup_cons,
    ← List.map_append] at hnd
  refine ⟨?_, ?_, ?_⟩
  · intro o g
    split
    · rename_i heq
      obtain ⟨rfl, rfl⟩ := heq
      -- no other live chunk starts where the released one did
      rw [Option.eq_none_iff_forall_ne_some]
      rintro ⟨p, ver⟩ hsome
      obtain ⟨n, hmem⟩ := (h'.lookup_eq_some_iff hp hsettled').1 hsome
      rw [hlive'] at hmem
      exact hnd.1 (List.mem_map.2 ⟨_, hmem, rfl⟩)
    · rename_i hne
      apply Option.ext
      intro x
      obtain ⟨p, ver⟩ := x
      rw [h'.lookup_eq_some_iff hp hsettled', h.lookup_eq_some_iff hp hsettled, hlive, hlive']
      apply exists_congr
      intro n
      have hold : (⟨o, n, .live g ver p⟩ : Chunk) ≠ c := by
        intro heq
        rw [← heq] at hc hne
        simp only [Content.live.injEq] at hc
        exact hne ⟨rfl, hc.1⟩
      simp only [List.mem_append, List.mem_cons, hold, false_or]
  · rw [h.liveCount_eq hp hsettled, h'.liveCount_eq hp hsettled', h.liveChunks_eq hp hsettled,
      h'.liveChunks_eq hp hsettled', hlive, hlive']
    simp only [List.length_append, List.length_cons]
    omega
  · unfold storedBytes
    rw [h.liveChunks_eq hp hsettled, h'.liveChunks_eq hp hsettled', hlive, hlive']
    have hlength : c.payloadLength = payload.length := by simp [Chunk.payloadLength, hc]
    simp only [List.map_append, List.map_cons, List.sum_append, List.sum_cons, hlength]
    omega

/-! ## Contents of reachable segments -/

/-- A new segment has no answer. -/
theorem lookup_empty (policy : AllocationPolicy) (offset generation : Nat) :
    (empty policy).lookup offset generation = none := by
  have hresolve : (empty policy).resolve? offset generation = none := by
    unfold resolve?
    exact if_neg fun hand => Nat.not_lt_zero _ hand.2.2.1
  unfold lookup
  rw [hresolve]
  rfl

/-- **Storing adds one answer.** -/
theorem Reachable.stored (hp : policy.Sound) (h : Reachable policy s) {payload : List UInt8}
    {version : CodecVersion} {generation offset : Nat} (hgen : generation ≠ 0)
    (hmax : generation ≤ maxWord)
    (hstore : s.store? policy (policy.classes.classify payload.length) payload version generation =
      some (offset, s')) : Stored s s' offset generation payload version := by
  obtain ⟨v, hrep, hsettled⟩ := h.exists_represents hp
  obtain ⟨v', hrep', hsettled', size, before, after, hlive, hlive'⟩ :=
    hrep.exists_of_store? hp hsettled hgen hmax hstore
  exact hrep.stored_of_live_eq hp hsettled hrep' hsettled' hlive hlive'

/-- **Releasing takes one answer away.** -/
theorem Reachable.released (hp : policy.Sound) (h : Reachable policy s) {offset generation : Nat}
    {chunk : LiveChunk} (hresolve : s.resolve? offset generation = some chunk) :
    Released s (s.release policy chunk) offset generation chunk.length := by
  obtain ⟨v, hrep, hsettled⟩ := h.exists_represents hp
  obtain ⟨v', hrep', hsettled', c, before, after, rfl, ⟨payload, hc, hlength⟩, hlive, hlive'⟩ :=
    hrep.exists_of_release hp hsettled hresolve
  rw [← hlength]
  exact hrep.released_of_live_eq hp hsettled hrep' hsettled' hc hlive hlive'

/-- The counter of a reachable segment is the number of its live chunks. -/
theorem Reachable.liveCount_eq (hp : policy.Sound) (h : Reachable policy s) :
    s.liveCount = s.liveChunks.length := by
  obtain ⟨hrep, hsettled⟩ := h.represents_view hp
  exact hrep.liveCount_eq hp hsettled

/-- The payloads of some chunks take no more than the chunks. -/
theorem sum_payloadLength_le {cs : List Chunk} (h : Carved policy s cs) :
    ((cs.filter Chunk.isLive).map Chunk.payloadLength).sum ≤ (cs.map Chunk.size).sum := by
  have hle : ∀ c ∈ cs, c.payloadLength ≤ c.size := by
    intro c hc
    unfold Chunk.payloadLength
    cases hcontent : c.content with
    | live g ver payload =>
      have := h.length_add_le hc hcontent
      exact Nat.le_trans (Nat.le_add_right _ _) this
    | free => exact Nat.zero_le _
    | taken => exact Nat.zero_le _
  have hsublist : ((cs.filter Chunk.isLive).map Chunk.payloadLength).Sublist
      (cs.map Chunk.payloadLength) := List.filter_sublist.map Chunk.payloadLength
  exact (hsublist.sum_le_sum fun n _ => Nat.zero_le n).trans (List.sum_le_sum hle)

/-- **The payloads in a segment never take more than its size.** -/
theorem Reachable.storedBytes_le (hp : policy.Sound) (h : Reachable policy s) :
    s.storedBytes ≤ policy.segmentSize := by
  obtain ⟨hrep, -⟩ := h.represents_view hp
  have hcarved : Carved policy s s.chunks := hrep.carved
  have hsum := sum_payloadLength_le hcarved
  have htiles := hcarved.tiling.tiles.sum_size
  have hbump := hcarved.bump_le
  rw [← hcarved.size_eq]
  unfold storedBytes liveChunks
  omega

end ObjectPile.Segment
