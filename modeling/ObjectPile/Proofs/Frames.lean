/-
# The bytes of live chunks stay

Headers of chunks that are split off, headers of merged ones and the links of the lists are written
into the same bytes that hold the payloads. But every write of storing and releasing goes to a chunk
that is not live at that moment: to the words of a free chunk, or to the chunk in hand. Chunks do not
overlap, so no byte of a live chunk is touched, neither of its header nor of its payload nor of the
room behind that.

* `Segment.Spares` : the bytes of some chunks are the same afterwards.
* `Loose.spares_setWord`, `Loose.spares_writeHeader` : writes to a chunk that is not live.
* `Represents.spares_unlink`, `Represents.spares_addFree` : operations on lists.
* `Represents.spares_storeAt`, `Merge.Holds.spares_finish` : storing and releasing.
* `Reachable.spares_store`, `Reachable.spares_release` : the same for reachable segments.
-/
import ObjectPile.Proofs.Coalescing

namespace ObjectPile

theorem Hand.live_view (h : Hand) : h.view.live = h.live := h.live_put_of_not_live rfl

namespace Segment

/-! ## Bytes of some chunks -/

/-- The bytes of some chunks are the same in both segments. -/
def Spares (cs : List Chunk) (s s' : Segment) : Prop := ∀ c ∈ cs, s.SameOn s' c.start c.stop

theorem Spares.of_memory_eq {cs : List Chunk} {s s' : Segment} (h : s'.memory = s.memory) :
    Spares cs s s' := by
  intro c _ i _ _
  rw [h]

theorem Spares.refl (cs : List Chunk) (s : Segment) : Spares cs s s := .of_memory_eq rfl

theorem Spares.trans {cs : List Chunk} {s s' s'' : Segment} (h : Spares cs s s')
    (h' : Spares cs s' s'') : Spares cs s s'' := fun c hc => (h c hc).trans (h' c hc)

/-- Marks and lists are kept apart from the bytes. -/
theorem Spares.mark {cs : List Chunk} {s s' : Segment} (h : Spares cs s s') (o : Nat) (b : Bool) :
    Spares cs s (s'.mark o b) := h.trans (.of_memory_eq rfl)

theorem Spares.setFreeList {cs : List Chunk} {s s' : Segment} (h : Spares cs s s') (i : Nat)
    (l : FreeList) : Spares cs s (s'.setFreeList i l) := h.trans (.of_memory_eq rfl)

variable {policy : AllocationPolicy} {s s' : Segment} {v : View} {cs : List Chunk} {bump : Nat}

/-- **Writes to a chunk that is not live spare the live ones.** -/
theorem spares_of_outside (hp : policy.Sound) (h : Tiling policy.classes.smallestChunk cs bump)
    {d : Chunk} (hd : d ∈ cs) (hlive : d.isLive = false)
    (hsame : ∀ i, i < d.start ∨ d.stop ≤ i → s'.memory.get i = s.memory.get i) :
    Spares (cs.filter Chunk.isLive) s s' := by
  intro c hc i hi hi'
  obtain ⟨hmem, hclive⟩ := List.mem_filter.1 hc
  have hne : c.start ≠ d.start := by
    intro heq
    obtain rfl := h.eq_of_start_eq (Carved.smallest_pos hp) hmem hd heq
    rw [hlive] at hclive
    exact Bool.false_ne_true hclive
  have happ := h.apart hmem hd hne
  apply hsame
  omega

/-! ## Writes to one chunk -/

/-- A chunk starts at an offset and is not live. -/
def Loose (cs : List Chunk) (o : Nat) : Prop := ∃ c ∈ cs, c.start = o ∧ c.isLive = false

namespace Loose

variable {o : Nat} {chunk : Option Nat} {t : Segment}

theorem spares_setWord (hp : policy.Sound) (h : Tiling policy.classes.smallestChunk cs bump)
    (ho : Loose cs o) {field : Nat} (hfield : field ∈ linkFields)
    (hs : Spares (cs.filter Chunk.isLive) s t) (n : Nat) :
    Spares (cs.filter Chunk.isLive) s (t.setWord o field n) := by
  obtain ⟨d, hd, rfl, hlive⟩ := ho
  have hsize := Nat.le_trans hp.classes.le_smallestChunk (h.smallest_le d hd)
  refine hs.trans (spares_of_outside hp h hd hlive ?_)
  intro i hi
  apply get_memory_setWord
  simp only [linkFields, lengthField, nextField, previousField, List.mem_cons, List.not_mem_nil,
    or_false] at hfield
  unfold Chunk.stop at hi
  omega

theorem spares_writeHeader (hp : policy.Sound) (h : Tiling policy.classes.smallestChunk cs bump)
    (ho : Loose cs o) (s : Segment) (size : Nat) (version : CodecVersion)
    (length generation : Nat) :
    Spares (cs.filter Chunk.isLive) s (s.writeHeader o size version length generation) := by
  obtain ⟨d, hd, rfl, hlive⟩ := ho
  have hsize := Nat.le_trans hp.classes.le_smallestChunk (h.smallest_le d hd)
  refine spares_of_outside hp h hd hlive ?_
  intro i hi
  apply get_memory_writeHeader
  unfold headerSize
  unfold Chunk.stop at hi
  omega

theorem spares_setNext (hp : policy.Sound) (h : Tiling policy.classes.smallestChunk cs bump)
    (hchunk : ∀ y ∈ chunk, Loose cs y) (hs : Spares (cs.filter Chunk.isLive) s t) (n : Nat) :
    Spares (cs.filter Chunk.isLive) s (t.setNext chunk n) := by
  cases chunk with
  | none => exact hs
  | some y => exact (hchunk y rfl).spares_setWord hp h (by decide) hs n

theorem spares_setPrevious (hp : policy.Sound) (h : Tiling policy.classes.smallestChunk cs bump)
    (hchunk : ∀ y ∈ chunk, Loose cs y) (hs : Spares (cs.filter Chunk.isLive) s t) (n : Nat) :
    Spares (cs.filter Chunk.isLive) s (t.setPrevious chunk n) := by
  cases chunk with
  | none => exact hs
  | some y => exact (hchunk y rfl).spares_setWord hp h (by decide) hs n

/-- Filing writes to the chunk that is filed and to the first one on its list. -/
theorem spares_file (hp : policy.Sound) (h : Tiling policy.classes.smallestChunk cs bump)
    (ho : Loose cs o) (hhead : ∀ i, ∀ y ∈ (t.freeList i).head, Loose cs y)
    (hs : Spares (cs.filter Chunk.isLive) s t) (size : Nat) :
    Spares (cs.filter Chunk.isLive) s (t.file policy o size) := by
  rcases Nat.lt_or_ge (t.freeList (policy.classes.listForChunk size)).length policy.freeListSize
    with hroom | hfull
  · rw [file_of_room t policy _ _ hroom]
    apply Spares.setFreeList
    apply spares_setPrevious hp h (hhead _)
    apply ho.spares_setWord hp h (by decide)
    apply ho.spares_setWord hp h (by decide)
    exact ho.spares_setWord hp h (by decide) hs _
  · rw [file_of_full t policy _ _ hfull]
    exact ho.spares_setWord hp h (by decide) hs _

/-- Unlinking writes to the chunk that is unlinked and to its neighbours on the list. -/
theorem spares_unlink (hp : policy.Sound) (h : Tiling policy.classes.smallestChunk cs bump)
    (ho : Loose cs o) (htracked : s.word o lengthField ≠ untracked)
    (hprevious : ∀ y ∈ s.previous o, Loose cs y) (hnext : ∀ y ∈ s.next o, Loose cs y) :
    Spares (cs.filter Chunk.isLive) s (s.unlink o) := by
  rw [unlink_of_tracked s _ htracked]
  apply Spares.setFreeList
  apply ho.spares_setWord hp h (by decide)
  apply spares_setPrevious hp h hnext
  exact spares_setNext hp h hprevious (.refl _ s) _

end Loose

/-! ## Operations on lists -/

/-- The chunks on lists are not live. -/
theorem Listed.loose {lists : Nat → List Nat} (h : Listed policy s cs lists) {i o : Nat}
    (ho : o ∈ lists i) : Loose cs o := h.exists_not_live ho

/-- **Unlinking a free chunk spares the live ones.** -/
theorem Represents.spares_unlink (hp : policy.Sound) (h : Represents policy s v) {d : Chunk}
    (hd : d ∈ v.chunks) (hfree : d.content = .free) : Spares v.live s (s.unlink d.start) := by
  by_cases hword : s.word d.start lengthField = untracked
  · rw [unlink_of_untracked s _ hword]
    exact .refl _ s
  · obtain ⟨i, as, bs, happ, -, hprevious, hnext⟩ := h.listed.exists_append hd hfree hword
    refine Loose.spares_unlink hp h.carved.tiling
      ⟨d, hd, rfl, Chunk.isLive_eq_false_of_free hfree⟩ hword ?_ ?_
    · intro y hy
      rw [hprevious] at hy
      exact h.listed.loose (i := i) (by simp [happ, List.mem_of_getLast? hy])
    · intro y hy
      rw [hnext] at hy
      exact h.listed.loose (i := i) (by simp [happ, List.mem_of_head? hy])

/-- **Making a chunk in hand free spares the live ones.** -/
theorem Represents.spares_addFree (hp : policy.Sound) (h : Represents policy s v) {d : Chunk}
    (hd : d ∈ v.chunks) (htaken : d.content = .taken) (size : Nat) :
    Spares v.live s (s.addFree policy d.start size) := by
  have hloose : Loose v.chunks d.start := ⟨d, hd, rfl, Chunk.isLive_eq_false_of_taken htaken⟩
  have hheader := hloose.spares_writeHeader hp h.carved.tiling s size .raw untracked 0
  refine hloose.spares_file hp h.carved.tiling ?_ hheader size
  intro i y hy
  have hhead : (s.freeList i).head = some y := by
    rwa [freeList, freeLists_writeHeader, ← freeList] at hy
  rw [h.listed.head] at hhead
  exact h.listed.loose (List.mem_of_head? hhead)

/-! ## Storing -/

/-- Taking a place spares the live chunks. -/
theorem Represents.spares_take (hp : policy.Sound) (h : Represents policy s v) {n : Nat}
    {placement : Placement} {hand : Hand}
    (ho : v.Offers policy (policy.classes.classify n) placement hand) :
    Spares v.live s (s.take policy (policy.classes.classify n) placement).1 := by
  obtain ⟨hmod, hsmall, -⟩ := h.chunkSize_bounds hp ho
  generalize policy.classes.classify n = request at *
  cases ho with
  | @reuse pre post d hchunks hfree hfits =>
    obtain ⟨cs, lists⟩ := v
    obtain rfl : cs = pre ++ d :: post := hchunks
    have hunlink := h.spares_unlink hp (by simp) hfree
    have hsize := h.chunkSize_eq (c := d) (by simp) (by simp [hfree])
    unfold Segment.take
    simp only [hsize]
    cases policy.mode with
    | favorSpeed =>
      simp only
      exact hunlink
    | reuseSpace =>
      simp only
      by_cases hle : policy.classes.smallestChunk ≤ d.size - request.chunkSize
      · rw [if_pos hle]
        -- the rest is split off in hand, where no live chunk is, and then given back
        have hsplit := (h.takeFree hp hfree).split rfl hmod hsmall hle hfits
        have hrest := hsplit.spares_addFree hp
          (d := ⟨d.start + request.chunkSize, d.size - request.chunkSize, .taken⟩) (by simp) rfl
          (d.size - request.chunkSize)
        have hlive : View.live ⟨pre ++ d :: post, lists⟩ = (pre ++ post).filter Chunk.isLive := by
          simp [View.live, List.filter_append, Chunk.isLive_eq_false_of_free hfree]
        refine (hunlink.mark (d.start + request.chunkSize) true).trans ?_
        rw [hlive]
        simpa [View.live, List.filter_append, Chunk.isLive] using hrest
      · simp only [if_neg hle]
        exact hunlink
  | extend hfits => exact .of_memory_eq rfl

/-- **Storing spares the live chunks.** -/
theorem Represents.spares_storeAt (hp : policy.Sound) (h : Represents policy s v)
    {payload : List UInt8} {placement : Placement} {hand : Hand}
    (ho : v.Offers policy (policy.classes.classify payload.length) placement hand)
    (version : CodecVersion) (generation : Nat) :
    Spares v.live s (s.storeAt policy (policy.classes.classify payload.length) placement payload
      version generation) := by
  obtain ⟨-, -, hroom⟩ := h.chunkSize_bounds hp ho
  obtain ⟨hview, hsize⟩ := h.take hp ho
  have hroom' : payload.length + headerSize ≤ hand.size := Nat.le_trans hroom ho.le_size
  refine (h.spares_take hp ho).trans ?_
  rw [← ho.live_eq, ← hand.live_view]
  refine spares_of_outside hp hview.carved.tiling (d := ⟨hand.start, hand.size, .taken⟩)
    (by simp [Hand.view, Hand.put]) rfl ?_
  intro i hi
  unfold Segment.storeAt
  simp only [← ho.start_eq, hsize]
  exact get_memory_writeChunk _ _ _ _ hroom' hi

/-! ## Releasing -/

namespace Merge.Holds

variable {m : Merge} {hand : Hand}

/-- Merging with the chunk after spares the live chunks. -/
theorem spares_withNext (hp : policy.Sound) (hm : m.Holds policy hand) :
    Spares hand.live m.segment m.withNext.segment := by
  rcases hm.withNext_cases hp with ⟨d, after, hafter, hfree, -, hmerge⟩ | ⟨-, hmerge⟩
  · have hd : d ∈ hand.view.chunks := Represents.mem_of_mem_append (by simp [hafter])
    rw [hmerge, ← hand.live_view]
    exact (hm.represents.spares_unlink hp hd hfree).mark d.start false
  · rw [hmerge]
    exact .refl _ _

/-- Merging with the chunk before spares the live chunks. -/
theorem spares_withPrevious (hp : policy.Sound) (hm : m.Holds policy hand) :
    Spares hand.live m.segment m.withPrevious.segment := by
  rcases hm.withPrevious_cases hp with ⟨d, before, hbefore, hfree, -, hmerge⟩ | ⟨-, hmerge⟩
  · have hd : d ∈ hand.view.chunks := Represents.mem_of_mem_append (by simp [hbefore])
    rw [hmerge, ← hand.live_view]
    exact (hm.represents.spares_unlink hp hd hfree).mark m.start false
  · rw [hmerge]
    exact .refl _ _

/-- Returning the bytes spares the live chunks. -/
theorem spares_finish (hp : policy.Sound) (hm : m.Holds policy hand) :
    Spares hand.live m.segment (m.finish policy) := by
  unfold Merge.finish
  split
  · exact .of_memory_eq rfl
  · rw [← hand.live_view, hm.start_eq]
    exact hm.represents.spares_addFree hp (d := ⟨hand.start, hand.size, .taken⟩)
      (by simp [Hand.view, Hand.put]) rfl m.size

/-- **Releasing spares the live chunks that stay.** -/
theorem spares_release {chunk : LiveChunk} (hp : policy.Sound)
    (hm : Holds policy ⟨{ s with liveCount := s.liveCount - 1 }, chunk.offset, chunk.size⟩ hand) :
    Spares hand.live s (s.release policy chunk) := by
  have hcounted : Spares hand.live s { s with liveCount := s.liveCount - 1 } := .of_memory_eq rfl
  refine hcounted.trans ?_
  unfold Segment.release
  cases policy.mode with
  | favorSpeed =>
    rw [← hand.live_view]
    have hstart : chunk.offset = hand.start := hm.start_eq
    simp only [hstart]
    exact hm.represents.spares_addFree hp (d := ⟨hand.start, hand.size, .taken⟩)
      (by simp [Hand.view, Hand.put]) rfl chunk.size
  | reuseSpace =>
    have hnext := hm.withNext hp
    have hprevious := hnext.withPrevious hp
    have hmerged := hnext.spares_withPrevious hp
    have hfinished := hprevious.spares_finish hp
    rw [Hand.live_withNext] at hmerged
    rw [Hand.live_withPrevious, Hand.live_withNext] at hfinished
    exact (hm.spares_withNext hp).trans (hmerged.trans hfinished)

end Merge.Holds

/-! ## Reachable segments -/

variable {offset generation : Nat}

/-- **Storing spares the live chunks, and they stay live.** -/
theorem Reachable.spares_store (hp : policy.Sound) (h : Reachable policy s) {payload : List UInt8}
    {version : CodecVersion} (hgen : generation ≠ 0) (hmax : generation ≤ maxWord)
    (hstore : s.store? policy (policy.classes.classify payload.length) payload version generation =
      some (offset, s')) : Spares s.view.live s s' ∧ ∀ c ∈ s.view.live, c ∈ s'.view.live := by
  obtain ⟨hrep, hsettled⟩ := h.represents_view hp
  constructor
  · obtain ⟨placement, hand, -, ho, -, rfl⟩ := hrep.exists_place hp hstore
    exact hrep.spares_storeAt hp ho version generation
  · obtain ⟨v, hrep', hsettled', size, before, after, hlive, hlive'⟩ :=
      hrep.exists_of_store? hp hsettled hgen hmax hstore
    rw [hrep'.view_eq hp hsettled', hlive, hlive']
    intro c hc
    rcases List.mem_append.1 hc with hc | hc
    · exact List.mem_append_left _ hc
    · exact List.mem_append_right _ (List.mem_cons_of_mem _ hc)

/-- **Releasing spares the other live chunks, and they stay live.** -/
theorem Reachable.spares_release (hp : policy.Sound) (h : Reachable policy s) {chunk : LiveChunk}
    (hresolve : s.resolve? offset generation = some chunk) :
    Spares (s.release policy chunk).view.live s (s.release policy chunk) ∧
      ∀ c ∈ s.view.live, c.start ≠ offset → c ∈ (s.release policy chunk).view.live := by
  obtain ⟨hrep, hsettled⟩ := h.represents_view hp
  obtain ⟨hand, version, payload, hview, rfl, hholds, hreleased⟩ :=
    hrep.exists_hand hp hsettled hresolve
  rw [hreleased, Hand.live_release]
  refine ⟨hholds.spares_release hp, ?_⟩
  intro c hc hne
  rw [hview] at hc
  obtain ⟨hmem, hlive⟩ := List.mem_filter.1 hc
  exact List.mem_filter.2 ⟨Represents.mem_append_of_start_ne hmem hne, hlive⟩

end Segment

end ObjectPile
