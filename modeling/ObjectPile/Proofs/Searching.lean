/-
# The search for free chunks is complete

Where space is reused, the search looks only at the first chunk of each list from the class of the
request on, and by size only at the oversized chunks. It finds a chunk nevertheless whenever a chunk
on any list has room: a chunk with room for a request is never on a list before that of the request,
and every chunk on a list of a class, from that of the request on, has room. So the choice between a
free chunk, the bytes at the cursor and a refusal is a matter of sizes alone.

* `Segment.Fits`, `Segment.HasFit` : chunks on the lists that have room.
* `Represents.reusable?_eq_none_iff` : nothing is found exactly if no chunk on the lists has room.
* `Segment.SearchesAll` : what storing comes to, by the sizes of the chunks on the lists.
* `Reachable.searchesAll` : so it is in every reachable segment.
-/
import ObjectPile.Proofs.Integrity

namespace ObjectPile.Segment

/-! ## Chunks with room -/

/-- There is a free chunk at an offset that is on a list and has at least `size` bytes. -/
def Fits (s : Segment) (size offset : Nat) : Prop :=
  offset ∈ s.offsets ∧ s.isFree offset = true ∧ (∃ i, offset ∈ s.listed i) ∧
    size ≤ s.chunkSize offset

/-- Some chunk on the lists has at least `size` bytes. -/
def HasFit (s : Segment) (size : Nat) : Prop := ∃ offset, s.Fits size offset

variable {policy : AllocationPolicy} {s : Segment} {v : View}

theorem HasFit.mono {size size' : Nat} (h : s.HasFit size') (hle : size ≤ size') :
    s.HasFit size := by
  obtain ⟨o, ho, hfree, hlisted, hfits⟩ := h
  exact ⟨o, ho, hfree, hlisted, Nat.le_trans hle hfits⟩

/-- A chunk has room on a segment if one of the view is listed and has. -/
theorem Represents.fits_iff (hp : policy.Sound) (h : Represents policy s v) (hsettled : v.Settled)
    {size o : Nat} : s.Fits size o ↔
      ∃ d ∈ v.chunks, d.start = o ∧ size ≤ d.size ∧ ∃ i, d.start ∈ v.lists i := by
  unfold Fits
  rw [h.listed_eq, h.offsets_eq hp]
  constructor
  · rintro ⟨ho, -, hlisted, hfits⟩
    obtain ⟨d, hd, rfl⟩ := List.mem_map.1 ho
    rw [h.chunkSize_eq hd (hsettled d hd)] at hfits
    exact ⟨d, hd, rfl, hfits, hlisted⟩
  · rintro ⟨d, hd, rfl, hfits, i, hi⟩
    -- what is on a list is free
    obtain ⟨c, hc, hstart, hfree, -⟩ := h.listed.free_of_mem i _ hi
    obtain rfl := h.carved.eq_of_start_eq hp hc hd hstart
    refine ⟨List.mem_map_of_mem hd, h.isFree_of_free hd hfree, ⟨i, hi⟩, ?_⟩
    rwa [h.chunkSize_eq hd (hsettled c hd)]

/-! ## The search -/

/-- **Whatever list a chunk with room is on, and wherever on it, the search finds a chunk.** -/
theorem Represents.exists_reusable? (hp : policy.Sound) (hmode : policy.mode = .reuseSpace)
    (h : Represents policy s v) {n i : Nat} {d : Chunk} (hd : d ∈ v.chunks)
    (hlisted : d.start ∈ v.lists i) (hfits : (policy.classes.classify n).chunkSize ≤ d.size) :
    ∃ o, s.reusable? policy (policy.classes.classify n) = some o := by
  obtain ⟨c, hc, hstart, hfree, hlist, -⟩ := h.listed.free_of_mem i _ hlisted
  obtain rfl := h.carved.eq_of_start_eq hp hc hd hstart
  -- the chunk is on the list of the request or on a later one
  have hfrom := hp.classes.list_classify_le (h.carved.size_lt_maxWord hp hd) hfits
  have hto := policy.classes.listForChunk_lt c.size
  rw [hlist] at hfrom hto
  rw [← Option.ne_none_iff_exists', h.listed.reusable?_of_reuseSpace hp h.carved hmode, ne_eq,
    Option.or_eq_none_iff]
  rintro ⟨hheads, hlast⟩
  by_cases hi : i < policy.classes.oversized
  · -- that list is not empty, so one of the heads is found
    have hrange : i ∈ List.range' (policy.classes.classify n).list
        (policy.classes.oversized - (policy.classes.classify n).list) := by
      rw [List.mem_range'_1]
      omega
    have hhead := List.findSome?_eq_none_iff.1 hheads i hrange
    rw [List.head?_eq_none_iff] at hhead
    rw [hhead] at hlisted
    exact List.not_mem_nil hlisted
  · -- all oversized chunks are looked at, this one included
    obtain rfl : i = policy.classes.oversized := by
      unfold ClassTable.listCount at hto
      unfold ClassTable.oversized at *
      omega
    have hnot := List.find?_eq_none.1 hlast _ hlisted
    rw [h.chunkSize_eq hd (by simp [hfree]), decide_eq_true_iff] at hnot
    exact hnot hfits

/-- **The search finds nothing exactly if no chunk on the lists has room.** -/
theorem Represents.reusable?_eq_none_iff (hp : policy.Sound) (hmode : policy.mode = .reuseSpace)
    (h : Represents policy s v) (hsettled : v.Settled) (n : Nat) :
    s.reusable? policy (policy.classes.classify n) = none ↔
      ¬s.HasFit (policy.classes.classify n).chunkSize := by
  rw [Option.eq_none_iff_forall_ne_some, HasFit, not_exists]
  constructor
  · intro hnone o hfit
    obtain ⟨d, hd, -, hfits, i, hi⟩ := (h.fits_iff hp hsettled).1 hfit
    obtain ⟨o', hfound⟩ := h.exists_reusable? hp hmode hd hi hfits
    exact hnone o' hfound
  · intro hnot o hfound
    obtain ⟨d, hd, rfl, -, hfits⟩ := h.exists_of_reusable? hp hfound
    have hlisted := h.mem_of_place? hp hmode (place?_eq_reuse_iff.2 hfound)
    exact hnot _ ((h.fits_iff hp hsettled).2 ⟨d, hd, rfl, hfits, hlisted⟩)

/-! ## Storing -/

/-- **Storing misses no chunk on the lists.** A payload goes to a free chunk exactly if one on the
lists has room, else to the cursor if there is room, and else nowhere. -/
structure SearchesAll (policy : AllocationPolicy) (s : Segment) : Prop where
  reuse_iff : ∀ n, (∃ o, s.place? policy (policy.classes.classify n) = some (.reuse o)) ↔
    s.HasFit (policy.classes.classify n).chunkSize
  reused : ∀ payload version generation,
    let request := policy.classes.classify payload.length
    s.HasFit request.chunkSize → ∃ o, s.Fits request.chunkSize o ∧
      s.store? policy request payload version generation =
        some (o, s.storeAt policy request (.reuse o) payload version generation)
  extended : ∀ payload version generation,
    let request := policy.classes.classify payload.length
    ¬s.HasFit request.chunkSize → s.bump + request.chunkSize ≤ s.size →
      s.store? policy request payload version generation =
        some (s.bump, s.storeAt policy request (.extend s.bump) payload version generation)
  refused : ∀ payload version generation,
    let request := policy.classes.classify payload.length
    ¬s.HasFit request.chunkSize → s.size < s.bump + request.chunkSize →
      s.store? policy request payload version generation = none
  /-- A segment that refuses a payload refuses every longer one. -/
  refused_mono : ∀ payload payload' version version' generation generation',
    payload.length ≤ payload'.length →
      s.store? policy (policy.classes.classify payload.length) payload version generation = none →
        s.store? policy (policy.classes.classify payload'.length) payload' version' generation' =
          none

/-- A payload is refused exactly if there is no place for it. -/
theorem store?_eq_none_iff {request : ChunkRequest} {payload : List UInt8} {version : CodecVersion}
    {generation : Nat} : s.store? policy request payload version generation = none ↔
      s.place? policy request = none :=
  Option.map_eq_none_iff

/-- There is no place for a request exactly if no chunk on the lists has room and the cursor is too
far on. -/
theorem Represents.place?_classify_eq_none_iff (hp : policy.Sound)
    (hmode : policy.mode = .reuseSpace) (h : Represents policy s v) (hsettled : v.Settled)
    (n : Nat) : s.place? policy (policy.classes.classify n) = none ↔
      ¬s.HasFit (policy.classes.classify n).chunkSize ∧
        s.size < s.bump + (policy.classes.classify n).chunkSize := by
  rw [place?_eq_none_iff, h.reusable?_eq_none_iff hp hmode hsettled]

/-- A segment that represents a settled view misses no chunk on its lists. -/
theorem Represents.toSearchesAll (hp : policy.Sound) (hmode : policy.mode = .reuseSpace)
    (h : Represents policy s v) (hsettled : v.Settled) : s.SearchesAll policy := by
  have hnone := h.reusable?_eq_none_iff hp hmode hsettled
  have hrefused := h.place?_classify_eq_none_iff hp hmode hsettled
  have hreuse : ∀ n, (∃ o, s.place? policy (policy.classes.classify n) = some (.reuse o)) ↔
      s.HasFit (policy.classes.classify n).chunkSize := by
    intro n
    simp only [place?_eq_reuse_iff]
    rw [← not_iff_not, ← hnone n, Option.eq_none_iff_forall_ne_some, not_exists]
  refine ⟨hreuse, ?_, ?_, ?_, ?_⟩
  · intro payload version generation request hfit
    obtain ⟨o, hplace⟩ := (hreuse payload.length).2 hfit
    obtain ⟨d, hd, rfl, -, hfits⟩ := h.exists_of_reusable? hp (place?_eq_reuse_iff.1 hplace)
    have hlisted := h.mem_of_place? hp hmode hplace
    refine ⟨d.start, (h.fits_iff hp hsettled).2 ⟨d, hd, rfl, hfits, hlisted⟩, ?_⟩
    unfold Segment.store?
    rw [hplace]
    rfl
  · intro payload version generation request hnot hroom
    have hplace : s.place? policy request = some (.extend s.bump) :=
      place?_eq_extend_iff.2 ⟨(hnone payload.length).2 hnot, hroom, rfl⟩
    unfold Segment.store?
    rw [hplace]
    rfl
  · intro payload version generation request hnot hfull
    exact store?_eq_none_iff.2 ((hrefused payload.length).2 ⟨hnot, hfull⟩)
  · intro payload payload' version version' generation generation' hle hstore
    rw [store?_eq_none_iff, hrefused] at hstore ⊢
    -- the longer payload asks for no smaller chunk
    have hmono := hp.classes.chunkSize_mono hle
    obtain ⟨hnot, hfull⟩ := hstore
    exact ⟨fun hfit => hnot (hfit.mono hmono), by omega⟩

/-- **The search for free chunks is complete in every reachable segment**, for every length of the
payload. -/
theorem Reachable.searchesAll {settings : Settings} (hs : settings.Accepted)
    (hmode : settings.allocMode = .reuseSpace) (h : Reachable (.ofSettings settings) s) :
    s.SearchesAll (.ofSettings settings) := by
  have hp := hs.sound.policy
  obtain ⟨hrep, hsettled⟩ := h.represents_view hp
  exact hrep.toSearchesAll hp hmode hsettled

/-- The free chunk is larger than its class and too small for the next one; a payload of that class
goes to the cursor, and one that is longer than the segment is refused. -/
theorem searchesAll_recycled :
    Settings.twoClasses.allocMode = .reuseSpace ∧
      recycled.SearchesAll (.ofSettings .twoClasses) ∧
      recycled.listed 0 = [64] ∧ recycled.chunkSize 64 = 48 ∧
      [16, 17, recycled.size].map (fun n => recycled.place? (.ofSettings .twoClasses)
        ((AllocationPolicy.ofSettings .twoClasses).classes.classify n)) =
        [some (.reuse 64), some (.extend 144), none] :=
  ⟨rfl, Reachable.searchesAll Settings.accepted_twoClasses rfl reachable_recycled,
    by decide +kernel⟩

end ObjectPile.Segment
