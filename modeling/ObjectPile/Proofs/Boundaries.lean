/-
# Boundaries

Where speed is favoured, chunks are neither cut nor merged: storing fills a free chunk or adds one at
the cursor, and releasing frees a live one. So the boundaries between chunks are there for good. A
chunk has the size of a class or is larger than all of them, and whenever it is released it goes back
to the list that it was taken from.

* `Reachable.store_cases`, `Reachable.view_release` : what storing and releasing do to the view.
* `Segment.Lasts` : boundaries are kept.
* `Reachable.sized` : chunks are as large as a class asks for, or larger than all of them.
* `Reachable.chunkSize_of_store` : a payload of a class gets a chunk of that class.
-/
import ObjectPile.Proofs.Coalescing

namespace ObjectPile

/-! ## Chunks of classes -/

namespace ClassTable

/-- A size that chunks have where speed is favoured: that of a class, or more than all classes ask
for. -/
def Sized (t : ClassTable) (size : Nat) : Prop :=
  (∃ c ∈ t.capacities, size = c + headerSize) ∨ ∀ c ∈ t.capacities, c + headerSize < size

namespace WellFormed

variable {t : ClassTable} {i c size : Nat}

/-- On the list of a class there are chunks of that class only. -/
theorem size_eq_of_listForChunk (h : t.WellFormed) (hsized : t.Sized size)
    (hc : t.capacities[i]? = some c) (hlist : t.listForChunk size = i) : size = c + headerSize := by
  rcases hsized with ⟨d, hd, rfl⟩ | hlt
  · obtain ⟨j, hj⟩ := List.mem_iff_getElem?.1 hd
    rw [h.listForChunk_of_class hj] at hlist
    rw [hlist, hc] at hj
    rw [Option.some.inj hj]
  · rw [h.listForChunk_of_lt hlt] at hlist
    unfold oversized at hlist
    rw [← hlist, List.getElem?_eq_none (Nat.le_refl _)] at hc
    simp at hc

/-- Requests ask for chunks of such sizes, as long as these do not run out of a word. -/
theorem sized_classify (h : t.WellFormed) {n bound : Nat} (hb : bound < maxWord)
    (hle : (t.classify n).chunkSize ≤ bound) : t.Sized (t.classify n).chunkSize := by
  rcases h.classify_cases n with ⟨c, hc, hsize, -⟩ | ⟨-, -, hlt⟩
  · exact .inl ⟨c, List.mem_of_getElem? hc, hsize⟩
  · right
    intro c hc
    have hroom := (h.chunkSize_bounds hb hle).2.2
    have := hlt c hc
    omega

end WellFormed

end ClassTable

namespace Segment

variable {policy : AllocationPolicy} {s s' : Segment} {payload : List UInt8}
  {version : CodecVersion} {generation offset : Nat}

/-! ## Storing and releasing -/

/-- **Where speed is favoured, storing fills a free chunk that is found or adds one at the cursor.** -/
theorem Reachable.store_cases (hp : policy.Sound) (hmode : policy.mode = .favorSpeed)
    (h : Reachable policy s) (hgen : generation ≠ 0) (hmax : generation ≤ maxWord)
    (hstore : s.store? policy (policy.classes.classify payload.length) payload version generation =
      some (offset, s')) :
    (∃ pre d post, s.view = ⟨pre ++ d :: post, s.listed⟩ ∧ d.content = .free ∧ d.start = offset ∧
      s.reusable? policy (policy.classes.classify payload.length) = some offset ∧
      s'.view = ⟨pre ++ { d with content := .live generation version payload } :: post,
        unlinkFrom s.listed offset⟩) ∨
    (s.reusable? policy (policy.classes.classify payload.length) = none ∧
      s.bump + (policy.classes.classify payload.length).chunkSize ≤ policy.segmentSize ∧
      offset = s.bump ∧ s'.view = ⟨s.chunks ++ [⟨s.bump,
        (policy.classes.classify payload.length).chunkSize, .live generation version payload⟩],
        s.listed⟩) := by
  obtain ⟨hrep, hsettled⟩ := h.represents_view hp
  obtain ⟨placement, hand, hplace, ho, rfl, rfl⟩ := hrep.exists_place hp hstore
  have hview := (hrep.storeAt hp ho version hgen hmax).view_eq hp
    (Hand.settled_put (ho.lone hsettled) (by simp))
  rw [hview]
  have hbump : s.view.stop = s.bump := hrep.stop_eq_bump
  cases ho with
  | @reuse pre post d hchunks hfree hfits =>
    refine .inl ⟨pre, d, post, congrArg (View.mk · s.listed) hchunks, hfree, rfl,
      place?_eq_reuse_iff.1 hplace, ?_⟩
    unfold Hand.cut
    rw [hmode]
    simp [Hand.put, Placement.offset, view]
  | extend hfits =>
    rw [hbump] at hfits hplace ⊢
    refine .inr ⟨(place?_eq_extend_iff.1 hplace).1, hfits, rfl, ?_⟩
    simp [Hand.put, view]

/-- **Where speed is favoured, releasing frees a live chunk and files it.** -/
theorem Reachable.view_release (hp : policy.Sound) (hmode : policy.mode = .favorSpeed)
    (h : Reachable policy s) {chunk : LiveChunk}
    (hresolve : s.resolve? offset generation = some chunk) :
    ∃ pre d post version payload, s.view = ⟨pre ++ d :: post, s.listed⟩ ∧
      d.content = .live generation version payload ∧ d.start = offset ∧
      (s.release policy chunk).view = ⟨pre ++ d.freed :: post, fileOn policy s.listed offset d.size⟩
    := by
  obtain ⟨hrep, hsettled⟩ := h.represents_view hp
  obtain ⟨hand, version, payload, hview, rfl, -, hreleased⟩ :=
    hrep.exists_hand hp hsettled hresolve
  have hlists : s.listed = hand.lists := congrArg View.lists hview
  refine ⟨hand.before.reverse, ⟨hand.start, hand.size, .live generation version payload⟩,
    hand.after, version, payload, ?_, rfl, rfl, ?_⟩
  · rw [hview, hlists]
    rfl
  · rw [hreleased, hlists]
    unfold Hand.release
    rw [hmode]
    rfl

/-! ## Boundaries are kept -/

/-- The places and the sizes of the chunks. -/
def extents (s : Segment) : List (Nat × Nat) := s.view.chunks.map fun c => (c.start, c.size)

/-- Storing leaves the boundaries or adds one. -/
theorem Reachable.extents_store (hp : policy.Sound) (hmode : policy.mode = .favorSpeed)
    (h : Reachable policy s) (hgen : generation ≠ 0) (hmax : generation ≤ maxWord)
    (hstore : s.store? policy (policy.classes.classify payload.length) payload version generation =
      some (offset, s')) :
    s'.extents = s.extents ∨
      (s.bump + (policy.classes.classify payload.length).chunkSize ≤ policy.segmentSize ∧
        s'.extents = s.extents ++ [(s.bump, (policy.classes.classify payload.length).chunkSize)]) := by
  unfold extents
  rcases h.store_cases hp hmode hgen hmax hstore with
    ⟨pre, d, post, hs, -, -, -, hview⟩ | ⟨-, hfits, -, hview⟩
  · left
    rw [hs, hview]
    simp
  · right
    rw [hview]
    simp [hfits, view]

/-- Releasing leaves the boundaries. -/
theorem Reachable.extents_release (hp : policy.Sound) (hmode : policy.mode = .favorSpeed)
    (h : Reachable policy s) {chunk : LiveChunk}
    (hresolve : s.resolve? offset generation = some chunk) :
    (s.release policy chunk).extents = s.extents := by
  obtain ⟨pre, d, post, version, payload, hs, -, -, hview⟩ := h.view_release hp hmode hresolve
  unfold extents
  rw [hs, hview]
  simp [Chunk.freed]

/-- **Boundaries are kept**: the cursor does not move back, a place where a chunk starts stays one, and
the chunk there keeps its size. -/
structure Lasts (s s' : Segment) : Prop where
  bump_le : s.bump ≤ s'.bump
  mark : ∀ k, s.starts.get k = true → s'.starts.get k = true
  chunkSize_eq : ∀ o ∈ s.offsets, s'.chunkSize o = s.chunkSize o

/-- Boundaries are kept while new ones come at the end only. -/
theorem Reachable.lasts (hp : policy.Sound) (h : Reachable policy s) (h' : Reachable policy s')
    (hgrown : s.extents <+: s'.extents) : s.Lasts s' := by
  obtain ⟨hrep, hsettled⟩ := h.represents_view hp
  obtain ⟨hrep', hsettled'⟩ := h'.represents_view hp
  have hmem : ∀ c ∈ s.view.chunks, ∃ c' ∈ s'.view.chunks, c'.start = c.start ∧ c'.size = c.size := by
    intro c hc
    have hextent := hgrown.subset (List.mem_map_of_mem hc)
    obtain ⟨c', hc', heq⟩ := List.mem_map.1 hextent
    exact ⟨c', hc', (Prod.mk.inj heq).1, (Prod.mk.inj heq).2⟩
  refine ⟨?_, ?_, ?_⟩
  · have hsum : ∀ t : Segment, (t.extents.map Prod.snd).sum = t.view.stop := by
      intro t
      unfold extents View.stop
      rw [List.map_map]
      rfl
    obtain ⟨more, hmore⟩ := hgrown
    rw [← hrep.stop_eq_bump, ← hrep'.stop_eq_bump, ← hsum, ← hsum, ← hmore, List.map_append,
      List.sum_append]
    omega
  · intro k hk
    rw [hrep.carved.marks] at hk
    rw [hrep'.carved.marks]
    obtain ⟨c, hc, hstart⟩ := List.mem_map.1 hk
    obtain ⟨c', hc', hstart', -⟩ := hmem c hc
    exact List.mem_map.2 ⟨c', hc', hstart'.trans hstart⟩
  · intro o ho
    rw [hrep.offsets_eq hp] at ho
    obtain ⟨c, hc, rfl⟩ := List.mem_map.1 ho
    obtain ⟨c', hc', hstart, hsize⟩ := hmem c hc
    rw [hrep.chunkSize_eq hc (hsettled c hc), ← hstart, ← hsize]
    exact hrep'.chunkSize_eq hc' (hsettled' c' hc')

/-! ## Sizes of chunks -/

/-- **Where speed is favoured, chunks are as large as a class asks for, or larger than all of them.** -/
theorem Reachable.sized (hp : policy.Sound) (hmode : policy.mode = .favorSpeed)
    (h : Reachable policy s) : ∀ e ∈ s.extents, policy.classes.Sized e.2 := by
  have hmax := hp.segmentSize_lt_maxWord
  induction h with
  | empty =>
    unfold extents view
    rw [chunks_empty]
    simp
  | store hreach hgen hgenmax hstore ih =>
    rcases hreach.extents_store hp hmode hgen hgenmax hstore with heq | ⟨hfits, heq⟩
    · rwa [heq]
    · rw [heq]
      intro e he
      rcases List.mem_append.1 he with he | he
      · exact ih e he
      · obtain rfl := List.mem_singleton.1 he
        exact hp.classes.sized_classify hmax (Nat.le_trans (Nat.le_add_left _ _) hfits)
  | release hreach hresolve ih => rwa [hreach.extents_release hp hmode hresolve]

/-- The size in the header of a chunk is the size of the chunk. -/
theorem Reachable.mem_extents (hp : policy.Sound) (h : Reachable policy s) {o : Nat}
    (ho : o ∈ s.offsets) : (o, s.chunkSize o) ∈ s.extents := by
  obtain ⟨hrep, hsettled⟩ := h.represents_view hp
  rw [hrep.offsets_eq hp] at ho
  obtain ⟨c, hc, rfl⟩ := List.mem_map.1 ho
  rw [hrep.chunkSize_eq hc (hsettled c hc)]
  exact List.mem_map_of_mem (f := fun c : Chunk => (c.start, c.size)) hc

/-- **Where speed is favoured, a payload of a class gets a chunk of that class.** -/
theorem Reachable.chunkSize_of_store (hp : policy.Sound) (hmode : policy.mode = .favorSpeed)
    (h : Reachable policy s) (hgen : generation ≠ 0) (hmax : generation ≤ maxWord)
    (hstore : s.store? policy (policy.classes.classify payload.length) payload version generation =
      some (offset, s')) {capacity : Nat}
    (hclass : policy.classes.capacities[(policy.classes.classify payload.length).list]? =
      some capacity) : s'.chunkSize offset = capacity + headerSize := by
  obtain ⟨hrep, -⟩ := h.represents_view hp
  obtain ⟨hrep', hsettled'⟩ := (h.store hgen hmax hstore).represents_view hp
  have hlt := (List.getElem?_eq_some_iff.1 hclass).1
  rcases h.store_cases hp hmode hgen hmax hstore with
    ⟨pre, d, post, hs, hfree, rfl, hfound, hview⟩ | ⟨-, -, rfl, hview⟩
  · -- the chunk that is found is on the list of the class
    have hd : d ∈ s.view.chunks := by simp [hs]
    rw [hrep.listed.reusable?_of_favorSpeed hmode, if_neg (by unfold ClassTable.oversized; omega)]
      at hfound
    obtain ⟨c, hc, hstart, -, hlist, -⟩ := hrep.listed.free_of_mem _ _ (List.mem_of_head? hfound)
    obtain rfl := hrep.carved.eq_of_start_eq hp hc hd hstart
    have hextent : (c.start, c.size) ∈ s.extents := List.mem_map_of_mem hd
    have hsize := hp.classes.size_eq_of_listForChunk (h.sized hp hmode _ hextent) hclass hlist
    rw [hview] at hrep' hsettled'
    have hmem : ({ c with content := .live generation version payload } : Chunk) ∈
        pre ++ { c with content := .live generation version payload } :: post := by simp
    exact (hrep'.chunkSize_eq hmem (by simp)).trans hsize
  · rw [hview] at hrep' hsettled'
    refine (hrep'.chunkSize_eq (List.mem_append_right _ (List.mem_singleton_self _))
      (by simp)).trans ?_
    rcases hp.classes.classify_cases payload.length with ⟨c, hc, hsize, -⟩ | ⟨hlist, -, -⟩
    · rw [hclass] at hc
      rw [hsize, Option.some.inj hc]
    · unfold ClassTable.oversized at hlist
      omega

end Segment

end ObjectPile
