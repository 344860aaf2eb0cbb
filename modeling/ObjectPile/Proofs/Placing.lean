/-
# Finding and taking a place

A request is served by a free chunk from one of the lists or by the bytes at the cursor. This module
says on views which chunk the search comes upon, that it is large enough, and what storing makes of
the place: a chunk in hand that is filled with the payload. Where space is reused the chunk is cut
first and the rest of it becomes free.

* `Listed.reusable?_of_favorSpeed`, `Listed.reusable?_of_reuseSpace` : the searches on plain lists.
* `View.Offers` : a place as the view has it, and the chunk in hand once it is taken.
* `Represents.offers_of_place?` : what the search finds is such a place.
* `Represents.store?` : storing fills the chunk in hand and leaves the other live chunks.
-/
import ObjectPile.Proofs.Hands

namespace ObjectPile

namespace View

/-- The end of the last chunk. -/
def stop (v : View) : Nat := (v.chunks.map Chunk.size).sum

end View

namespace Hand

/-- Keeps what a request needs and makes a free chunk of the rest, where space is reused and the
rest is large enough. -/
def cut (policy : AllocationPolicy) (request : ChunkRequest) (h : Hand) : Hand :=
  match policy.mode with
  | .favorSpeed => h
  | .reuseSpace =>
    if policy.classes.smallestChunk ≤ h.size - request.chunkSize then
      { h with
        size := request.chunkSize
        after := ⟨h.start + request.chunkSize, h.size - request.chunkSize, .free⟩ :: h.after
        lists := Segment.fileOn policy h.lists (h.start + request.chunkSize)
          (h.size - request.chunkSize) }
    else h

/-- Cutting a chunk happens or does not. -/
theorem cut_cases (policy : AllocationPolicy) (request : ChunkRequest) (h : Hand) :
    (policy.mode = .reuseSpace ∧ policy.classes.smallestChunk ≤ h.size - request.chunkSize ∧
      h.cut policy request =
        { h with
          size := request.chunkSize
          after := ⟨h.start + request.chunkSize, h.size - request.chunkSize, .free⟩ :: h.after
          lists := Segment.fileOn policy h.lists (h.start + request.chunkSize)
            (h.size - request.chunkSize) }) ∨
    ((policy.mode = .reuseSpace → h.size - request.chunkSize < policy.classes.smallestChunk) ∧
      h.cut policy request = h) := by
  unfold cut
  cases policy.mode with
  | favorSpeed => exact .inr ⟨nofun, rfl⟩
  | reuseSpace =>
    by_cases hle : policy.classes.smallestChunk ≤ h.size - request.chunkSize
    · exact .inl ⟨rfl, hle, if_pos hle⟩
    · exact .inr ⟨fun _ => Nat.lt_of_not_le hle, if_neg hle⟩

@[simp] theorem start_cut (policy : AllocationPolicy) (request : ChunkRequest) (h : Hand) :
    (h.cut policy request).start = h.start := by
  rcases h.cut_cases policy request with ⟨-, -, heq⟩ | ⟨-, heq⟩ <;> rw [heq]

@[simp] theorem live_cut (policy : AllocationPolicy) (request : ChunkRequest) (h : Hand) :
    (h.cut policy request).live = h.live := by
  rcases h.cut_cases policy request with ⟨-, -, heq⟩ | ⟨-, heq⟩
  · rw [heq]
    simp [live, List.filter_append, Chunk.isLive]
  · rw [heq]

theorem Lone.cut {policy : AllocationPolicy} {h : Hand} (hlone : h.Lone)
    (request : ChunkRequest) : (h.cut policy request).Lone := by
  rcases h.cut_cases policy request with ⟨-, -, heq⟩ | ⟨-, heq⟩
  · rw [heq]
    intro c hc
    rcases List.mem_append.1 hc with hc | hc
    · exact hlone c (List.mem_append_left _ hc)
    · rcases List.mem_cons.1 hc with rfl | hc
      · simp
      · exact hlone c (List.mem_append_right _ hc)
  · rwa [heq]

/-- A chunk that is large enough for a request stays so when it is cut. -/
theorem le_size_cut {policy : AllocationPolicy} {request : ChunkRequest} {h : Hand}
    (hle : request.chunkSize ≤ h.size) : request.chunkSize ≤ (h.cut policy request).size := by
  rcases h.cut_cases policy request with ⟨-, -, heq⟩ | ⟨-, heq⟩
  · rw [heq]
  · rwa [heq]

end Hand

/-! ## Places -/

/-- A view offers a place for a request, and taking it puts a chunk in hand: a free chunk from the
lists, cut to size, or a new one at the cursor. -/
inductive View.Offers (policy : AllocationPolicy) (request : ChunkRequest) (v : View) :
    Placement → Hand → Prop
  | reuse {pre post : List Chunk} {d : Chunk} (hchunks : v.chunks = pre ++ d :: post)
      (hfree : d.content = .free) (hfits : request.chunkSize ≤ d.size) :
      View.Offers policy request v (.reuse d.start) (Hand.cut policy request
        ⟨pre.reverse, d.start, d.size, post, Segment.unlinkFrom v.lists d.start⟩)
  | extend (hfits : v.stop + request.chunkSize ≤ policy.segmentSize) :
      View.Offers policy request v (.extend v.stop)
        ⟨v.chunks.reverse, v.stop, request.chunkSize, [], v.lists⟩

namespace View.Offers

variable {policy : AllocationPolicy} {request : ChunkRequest} {v : View} {placement : Placement}
  {h : Hand}

/-- The chunk in hand starts at the place. -/
theorem start_eq (ho : v.Offers policy request placement h) : h.start = placement.offset := by
  cases ho with
  | reuse hchunks hfree hfits => exact Hand.start_cut ..
  | extend hfits => rfl

/-- The chunk in hand is large enough. -/
theorem le_size (ho : v.Offers policy request placement h) : request.chunkSize ≤ h.size := by
  cases ho with
  | reuse hchunks hfree hfits => exact Hand.le_size_cut hfits
  | extend hfits => exact Nat.le_refl _

/-- Taking a place takes no live chunk. -/
theorem live_eq (ho : v.Offers policy request placement h) : h.live = v.live := by
  cases ho with
  | reuse hchunks hfree hfits =>
    rw [Hand.live_cut]
    simp [Hand.live, View.live, hchunks, List.filter_append, Chunk.isLive_eq_false_of_free hfree]
  | extend hfits => simp [Hand.live, View.live]

/-- Taking a place leaves one chunk in hand. -/
theorem lone (ho : v.Offers policy request placement h) (hsettled : v.Settled) : h.Lone := by
  cases ho with
  | reuse hchunks hfree hfits =>
    apply Hand.Lone.cut
    intro c hc
    rw [List.reverse_reverse] at hc
    exact hsettled c (by rw [hchunks]; exact Segment.Represents.mem_of_mem_append hc)
  | extend hfits =>
    intro c hc
    exact hsettled c (by simpa using hc)

end View.Offers

namespace Segment

variable {policy : AllocationPolicy} {s s' : Segment} {cs pre post : List Chunk}
  {lists : Nat → List Nat} {v : View} {d : Chunk} {request : ChunkRequest}

/-! ## The search -/

/-- The first head among some lists in a row. -/
theorem firstHead?_eq (s : Segment) (list n : Nat) :
    s.firstHead? list n = (List.range' list n).findSome? fun i => (s.freeList i).head := by
  induction n generalizing list with
  | zero => rfl
  | succ n ih =>
    rw [firstHead?, List.range'_succ, List.findSome?_cons, ih]
    cases (s.freeList list).head <;> rfl

/-- Where speed is favoured, the first chunk of the class serves a request, and an oversized one is
looked for among the first few of its list. -/
theorem Listed.reusable?_of_favorSpeed (h : Listed policy s cs lists)
    (hmode : policy.mode = .favorSpeed) (request : ChunkRequest) :
    s.reusable? policy request =
      if request.list = policy.classes.oversized then
        ((lists policy.classes.oversized).take oversizedLimit).find? fun o =>
          request.chunkSize ≤ s.chunkSize o
      else (lists request.list).head? := by
  unfold reusable?
  rw [hmode]
  simp only
  rw [h.head, h.head, (h.linked policy.classes.oversized).findFit?_eq]

/-- The chunks on the lists are fewer than a word counts. -/
theorem Listed.length_le (hp : policy.Sound) (hc : Carved policy s cs)
    (h : Listed policy s cs lists) (i : Nat) : (lists i).length ≤ maxWord := by
  -- different places in a segment are not more than the largest segment has bytes
  have hsub : lists i ⊆ List.range 2147483648 := by
    intro o ho
    obtain ⟨c, hcm, rfl⟩ := h.exists_start ho
    have hstop := hc.stop_le hp hcm
    have hsize := hc.size_ge hp hcm
    unfold Chunk.stop at hstop
    exact List.mem_range.2 (by omega)
  have hlen := ((h.nodup i).subperm hsub).length_le
  rw [List.length_range] at hlen
  unfold maxWord
  omega

/-- Where space is reused, the first chunk of the first list that is not empty serves a request,
from the list of its class on; failing that, the first oversized chunk that is large enough. -/
theorem Listed.reusable?_of_reuseSpace (hp : policy.Sound) (hc : Carved policy s cs)
    (h : Listed policy s cs lists) (hmode : policy.mode = .reuseSpace) (request : ChunkRequest) :
    s.reusable? policy request =
      ((List.range' request.list (policy.classes.oversized - request.list)).findSome? fun i =>
        (lists i).head?).or
        ((lists policy.classes.oversized).find? fun o => request.chunkSize ≤ s.chunkSize o) := by
  unfold reusable?
  rw [hmode]
  simp only
  rw [firstHead?_eq, h.head, (h.linked policy.classes.oversized).findFit?_eq,
    List.take_of_length_le (h.length_le hp hc _)]
  simp only [h.head]
  cases (List.range' request.list (policy.classes.oversized - request.list)).findSome? fun i =>
    (lists i).head? <;> rfl

/-- A free chunk on the list of a request, or on a later one, has room for the request unless that
is oversized. -/
theorem Represents.chunkSize_le_of_mem (hp : policy.Sound) (h : Represents policy s ⟨cs, lists⟩)
    {n i o : Nat} (hlist : (policy.classes.classify n).list < policy.classes.oversized)
    (hi : (policy.classes.classify n).list ≤ i) (ho : o ∈ lists i) :
    ∃ d ∈ cs, d.start = o ∧ d.content = .free ∧ (policy.classes.classify n).chunkSize ≤ d.size := by
  obtain ⟨d, hd, hstart, hfree, hlistd, -⟩ := h.listed.free_of_mem i o ho
  refine ⟨d, hd, hstart, hfree, ?_⟩
  have hsmall := h.carved.tiling.smallest_le d hd
  obtain ⟨c, hc, hle⟩ := hp.classes.capacity_le_of_le_listForChunk hlist hsmall (by omega)
  rcases hp.classes.classify_cases n with ⟨c', hc', hsize, -⟩ | ⟨hover, -⟩
  · rw [hc'] at hc
    rw [hsize, Option.some.inj hc]
    exact hle
  · omega

/-- A chunk that a search by size comes upon has room for the request. -/
theorem Represents.chunkSize_le_of_find? (h : Represents policy s ⟨cs, lists⟩) {os : List Nat}
    {i o n : Nat} (hos : os ⊆ lists i) (hfind : os.find? (fun o => n ≤ s.chunkSize o) = some o) :
    ∃ d ∈ cs, d.start = o ∧ d.content = .free ∧ n ≤ d.size := by
  obtain ⟨d, hd, rfl, hfree, -⟩ := h.listed.free_of_mem i o (hos (List.mem_of_find?_eq_some hfind))
  have hle : n ≤ s.chunkSize d.start := by simpa using List.find?_some hfind
  rw [h.chunkSize_eq hd (by simp [hfree])] at hle
  exact ⟨d, hd, rfl, hfree, hle⟩

/-- **A chunk that is found to serve a request is free and large enough.** -/
theorem Represents.exists_of_reusable? (hp : policy.Sound)
    (h : Represents policy s ⟨cs, lists⟩) {n o : Nat}
    (hfound : s.reusable? policy (policy.classes.classify n) = some o) :
    ∃ d ∈ cs, d.start = o ∧ d.content = .free ∧ (policy.classes.classify n).chunkSize ≤ d.size := by
  have hlt := policy.classes.list_classify_lt n
  cases hmode : policy.mode with
  | favorSpeed =>
    -- by size from the oversized chunks, or any chunk of the class
    rw [h.listed.reusable?_of_favorSpeed hmode] at hfound
    split at hfound
    · exact h.chunkSize_le_of_find? (List.take_subset _ _) hfound
    · rename_i hne
      refine h.chunkSize_le_of_mem hp ?_ (Nat.le_refl _) (List.mem_of_head? hfound)
      unfold ClassTable.listCount at hlt
      unfold ClassTable.oversized at *
      omega
  | reuseSpace =>
    -- any chunk of the class or of a larger one, or else by size from the oversized chunks
    rw [h.listed.reusable?_of_reuseSpace hp h.carved hmode, Option.or_eq_some_iff] at hfound
    rcases hfound with hfound | ⟨-, hfound⟩
    · obtain ⟨i, hi, hhead⟩ := List.exists_of_findSome?_eq_some hfound
      rw [List.mem_range'_1] at hi
      exact h.chunkSize_le_of_mem hp (by omega) hi.1 (List.mem_of_head? hhead)
    · exact h.chunkSize_le_of_find? (List.Subset.refl _) hfound

/-- The cursor is at the end of the last chunk. -/
theorem Represents.stop_eq_bump (h : Represents policy s v) : v.stop = s.bump := by
  have hsum := h.carved.tiling.tiles.sum_size
  unfold View.stop
  omega

/-- A free chunk serves a request exactly if the search finds it. -/
theorem place?_eq_reuse_iff {o : Nat} : s.place? policy request = some (.reuse o) ↔
    s.reusable? policy request = some o := by
  unfold place?
  cases s.reusable? policy request with
  | some o' => simp
  | none =>
    simp only
    split <;> simp

/-- The bytes at the cursor serve a request if the search finds nothing. -/
theorem place?_eq_extend_iff {o : Nat} : s.place? policy request = some (.extend o) ↔
    s.reusable? policy request = none ∧ s.bump + request.chunkSize ≤ s.size ∧ s.bump = o := by
  unfold place?
  cases s.reusable? policy request with
  | some o' => simp
  | none => simp

theorem place?_eq_none_iff : s.place? policy request = none ↔
    s.reusable? policy request = none ∧ s.size < s.bump + request.chunkSize := by
  unfold place?
  cases s.reusable? policy request with
  | some o => simp
  | none => simp

/-- A chunk that is found where speed is favoured is on the list of the request. -/
theorem Represents.mem_of_reusable? (hmode : policy.mode = .favorSpeed) (h : Represents policy s v)
    {o : Nat} (hfound : s.reusable? policy request = some o) : o ∈ v.lists request.list := by
  rw [h.listed.reusable?_of_favorSpeed hmode] at hfound
  split at hfound
  · rename_i hlist
    rw [hlist]
    exact List.mem_of_mem_take (List.mem_of_find?_eq_some hfound)
  · exact List.mem_of_head? hfound

/-- A chunk that is found where space is reused is on one of the lists. -/
theorem Represents.mem_of_place? (hp : policy.Sound) (hmode : policy.mode = .reuseSpace)
    (h : Represents policy s v) {o : Nat} (hplace : s.place? policy request = some (.reuse o)) :
    ∃ i, o ∈ v.lists i := by
  have hfound := place?_eq_reuse_iff.1 hplace
  rw [h.listed.reusable?_of_reuseSpace hp h.carved hmode, Option.or_eq_some_iff] at hfound
  rcases hfound with hfound | ⟨-, hfound⟩
  · obtain ⟨i, -, hhead⟩ := List.exists_of_findSome?_eq_some hfound
    exact ⟨i, List.mem_of_head? hhead⟩
  · exact ⟨_, List.mem_of_find?_eq_some hfound⟩

/-- **A place that is found is one that the view offers.** -/
theorem Represents.offers_of_place? (hp : policy.Sound) (h : Represents policy s v) {n : Nat}
    {placement : Placement} (hplace : s.place? policy (policy.classes.classify n) = some placement) :
    ∃ hand, v.Offers policy (policy.classes.classify n) placement hand := by
  unfold place? at hplace
  split at hplace
  · rename_i o hfound
    obtain ⟨d, hd, rfl, hfree, hfits⟩ := h.exists_of_reusable? hp hfound
    obtain ⟨pre, post, hchunks⟩ := List.append_of_mem hd
    obtain rfl := Option.some.inj hplace
    exact ⟨_, .reuse hchunks hfree hfits⟩
  · split at hplace
    · rename_i hfits
      obtain rfl := Option.some.inj hplace
      rw [← h.stop_eq_bump] at hfits ⊢
      exact ⟨_, .extend (by rwa [← h.carved.size_eq])⟩
    · simp at hplace

/-! ## Taking and storing -/

/-- A place that is offered is aligned to, and large enough for, what segments are carved into. -/
theorem Represents.chunkSize_bounds (hp : policy.Sound) (h : Represents policy s v) {n : Nat}
    {placement : Placement} {hand : Hand}
    (ho : v.Offers policy (policy.classes.classify n) placement hand) :
    (policy.classes.classify n).chunkSize % 16 = 0 ∧
      policy.classes.smallestChunk ≤ (policy.classes.classify n).chunkSize ∧
      n + headerSize ≤ (policy.classes.classify n).chunkSize := by
  cases ho with
  | reuse hchunks hfree hfits =>
    exact hp.classes.chunkSize_bounds (h.carved.size_lt_maxWord hp (by simp [hchunks])) hfits
  | extend hfits =>
    exact hp.classes.chunkSize_bounds hp.segmentSize_lt_maxWord (Nat.le_of_add_left_le hfits)

/-- Taking a place of a segment is taking it from the view. -/
theorem Represents.take (hp : policy.Sound) (h : Represents policy s v) {n : Nat}
    {placement : Placement} {hand : Hand}
    (ho : v.Offers policy (policy.classes.classify n) placement hand) :
    Represents policy (s.take policy (policy.classes.classify n) placement).1 hand.view ∧
      (s.take policy (policy.classes.classify n) placement).2 = hand.size := by
  obtain ⟨hmod, hsmall, -⟩ := h.chunkSize_bounds hp ho
  generalize policy.classes.classify n = request at *
  cases ho with
  | reuse hchunks hfree hfits =>
    rename_i pre post d
    obtain ⟨cs, lists⟩ := v
    obtain rfl : cs = pre ++ d :: post := hchunks
    have hsize := h.chunkSize_eq (c := d) (by simp) (by simp [hfree])
    have htaken := h.takeFree hp hfree
    unfold Segment.take Hand.cut
    simp only [hsize]
    cases policy.mode with
    | favorSpeed => exact ⟨by simpa [Hand.view, Hand.put] using htaken, rfl⟩
    | reuseSpace =>
      simp only
      split
      · rename_i hle
        -- the rest is split off in hand and then given back
        have hsplit := htaken.split rfl hmod hsmall hle hfits
        rw [List.append_cons] at hsplit
        have hfreed := hsplit.addFree hp rfl
        refine ⟨?_, rfl⟩
        simpa [Hand.view, Hand.put] using hfreed
      · exact ⟨by simpa [Hand.view, Hand.put] using htaken, rfl⟩
  | extend hfits =>
    rw [h.stop_eq_bump, ← h.carved.size_eq] at hfits
    have hextended := h.extend hmod hsmall hfits
    unfold Segment.take
    rw [h.stop_eq_bump]
    exact ⟨by simpa [Hand.view, Hand.put] using hextended, rfl⟩

/-- **Storing at a place fills the chunk in hand.** -/
theorem Represents.storeAt (hp : policy.Sound) (h : Represents policy s v) {payload : List UInt8}
    {placement : Placement} {hand : Hand}
    (ho : v.Offers policy (policy.classes.classify payload.length) placement hand)
    (version : CodecVersion) {generation : Nat} (hgen : generation ≠ 0)
    (hmax : generation ≤ maxWord) :
    Represents policy (s.storeAt policy (policy.classes.classify payload.length) placement payload
      version generation) (hand.put (.live generation version payload)) := by
  obtain ⟨-, -, hroom⟩ := h.chunkSize_bounds hp ho
  obtain ⟨hview, hsize⟩ := h.take hp ho
  have hroom' : payload.length + headerSize ≤ hand.size := Nat.le_trans hroom ho.le_size
  unfold Segment.storeAt
  simp only [← ho.start_eq, hsize]
  exact hview.hold (d := ⟨hand.start, hand.size, .taken⟩) hp rfl hroom' version hgen hmax

/-- A payload that a segment takes is stored at the place that the search finds. -/
theorem Represents.exists_place (hp : policy.Sound) (h : Represents policy s v)
    {payload : List UInt8} {version : CodecVersion} {generation offset : Nat}
    (hstore : s.store? policy (policy.classes.classify payload.length) payload version generation =
      some (offset, s')) :
    ∃ placement hand, s.place? policy (policy.classes.classify payload.length) = some placement ∧
      v.Offers policy (policy.classes.classify payload.length) placement hand ∧
        placement.offset = offset ∧
        s.storeAt policy (policy.classes.classify payload.length) placement payload version
          generation = s' := by
  obtain ⟨placement, hplace, hstored⟩ := Option.map_eq_some_iff.1 hstore
  obtain ⟨hoffset, hsegment⟩ := Prod.mk.inj hstored
  obtain ⟨hand, ho⟩ := h.offers_of_place? hp hplace
  exact ⟨placement, hand, hplace, ho, hoffset, hsegment⟩

/-- **A payload that a segment takes goes to a place that the view offers.** -/
theorem Represents.store? (hp : policy.Sound) (h : Represents policy s v) {payload : List UInt8}
    {version : CodecVersion} {generation offset : Nat} (hgen : generation ≠ 0)
    (hmax : generation ≤ maxWord)
    (hstore : s.store? policy (policy.classes.classify payload.length) payload version generation =
      some (offset, s')) :
    ∃ placement hand,
      v.Offers policy (policy.classes.classify payload.length) placement hand ∧
        hand.start = offset ∧
        Represents policy s' (hand.put (.live generation version payload)) := by
  obtain ⟨placement, hand, -, ho, hoffset, rfl⟩ := h.exists_place hp hstore
  exact ⟨placement, hand, ho, by rw [ho.start_eq, hoffset], h.storeAt hp ho version hgen hmax⟩

end Segment

end ObjectPile
