/-
# Integrity of segments

What holds of every segment that storing and releasing lead to, said about the segment itself: about
the marks, the headers and the links that are read off it.

* `Segment.Partitioned` : the bytes before the cursor are cut into chunks, where the marks are.
* `Segment.Threaded` : the lists of free chunks are doubly linked lists of free chunks, no longer
  than allowed, and each free chunk is on the list for its size or on none.
* `Segment.ListOperations` : filing puts a chunk on the front of a list, unlinking erases one and the
  search finds the first that is large enough, wherever in the program they are called.
* `Reachable.partitioned`, `Reachable.threaded` : all this holds of every reachable segment.
-/
import ObjectPile.Proofs.Reading

namespace ObjectPile.Segment

/-! ## Partitions -/

/-- **The bytes before the cursor are cut into chunks.** The chunks are those with a mark, and their
sizes are those in their headers. -/
structure Partitioned (policy : AllocationPolicy) (s : Segment) : Prop where
  size_eq : s.size = policy.segmentSize
  bump_le : s.bump ≤ s.size
  /-- Each chunk ends where the next one starts, and the last one ends at the cursor. -/
  tiles : Tiles 0 s.chunks s.bump
  start_mod : ∀ c ∈ s.chunks, c.start % 16 = 0
  size_mod : ∀ c ∈ s.chunks, c.size % 16 = 0
  smallest_le : ∀ c ∈ s.chunks, policy.classes.smallestChunk ≤ c.size
  /-- No other place is marked, neither inside a chunk nor behind the cursor. -/
  mark_iff : ∀ k, s.starts.get k = true ↔ ∃ c ∈ s.chunks, c.start = 16 * k
  liveCount_eq : s.liveCount = s.offsets.countP fun o => s.generation o ≠ 0
  length_le : ∀ o ∈ s.offsets, s.generation o ≠ 0 →
    s.word o lengthField + headerSize ≤ s.chunkSize o

variable {policy : AllocationPolicy} {s : Segment} {v : View}

/-- A chunk is live exactly if its generation is not zero. -/
theorem isLive_chunkAt (s : Segment) (o : Nat) :
    (s.chunkAt o).isLive = decide (s.generation o ≠ 0) := by
  unfold chunkAt contentAt isFree Chunk.isLive
  by_cases hgen : s.generation o = 0 <;> simp [hgen]

/-- The payload of a live chunk is not longer than the chunk has room for. -/
theorem Carved.length_add_le {cs : List Chunk} (h : Carved policy s cs) {c : Chunk} (hc : c ∈ cs)
    {generation : Nat} {version : CodecVersion} {payload : List UInt8}
    (hlive : c.content = .live generation version payload) :
    payload.length + headerSize ≤ c.size := by
  have hshows := h.shows c hc
  unfold Shows at hshows
  rw [hlive] at hshows
  obtain ⟨-, -, -, -, -, hroom, -⟩ := hshows
  exact hroom

/-- The length in the header of a live chunk is not more than the chunk has room for. -/
theorem Carved.word_add_le (h : Carved policy s s.chunks) {o : Nat} (ho : o ∈ s.offsets)
    (hgen : s.generation o ≠ 0) : s.word o lengthField + headerSize ≤ s.chunkSize o := by
  have hisFree : s.isFree o = false := by simpa [isFree] using hgen
  have hlive : (s.chunkAt o).content = .live (s.generation o) (s.chunkVersion o)
      (s.memory.read (o + headerSize) (s.word o lengthField)) := by
    unfold chunkAt contentAt
    rw [hisFree, if_neg Bool.false_ne_true]
  have hroom := h.length_add_le (List.mem_map_of_mem ho) hlive
  rwa [Tape.length_read] at hroom

/-- The live chunks are those whose generation is not zero. -/
theorem Carved.liveCount_eq_countP (h : Carved policy s s.chunks) :
    s.liveCount = s.offsets.countP fun o => s.generation o ≠ 0 := by
  rw [h.liveCount_eq, chunks, List.countP_map]
  exact List.countP_congr fun o _ => by simp [isLive_chunkAt]

/-- A segment that shows the chunks that are read off it is cut into them. -/
theorem Carved.toPartitioned (h : Carved policy s s.chunks) : s.Partitioned policy where
  size_eq := h.size_eq
  bump_le := h.bump_le
  tiles := h.tiling.tiles
  start_mod := h.tiling.start_mod
  size_mod := h.tiling.aligned
  smallest_le := h.tiling.smallest_le
  mark_iff k := (h.marks k).trans List.mem_map
  liveCount_eq := h.liveCount_eq_countP
  length_le _ ho hgen := h.word_add_le ho hgen

/-- **Every reachable segment is cut into chunks**: without gap or overlap from its first byte to the
cursor, each chunk aligned and not below the smallest size, the marks at exactly their starts, the
live ones counted and no payload longer than its chunk. -/
theorem Reachable.partitioned {settings : Settings} (hs : settings.Accepted)
    (h : Reachable (.ofSettings settings) s) : s.Partitioned (.ofSettings settings) :=
  (h.represents_view hs.sound.policy).1.carved.toPartitioned

/-- A segment in which a released chunk was cut and its first part taken again. -/
def recycled : Segment :=
  let policy : AllocationPolicy := .ofSettings .twoClasses
  let s := storing policy (empty policy) [1, 2, 3] .raw 1
  let s := storing policy s (List.replicate 17 7) .raw 2
  let s := storing policy s [] .raw 3
  storing policy (releasing policy s 32 2) [4] .raw 4

theorem reachable_recycled : Reachable (.ofSettings .twoClasses) recycled :=
  ((((Reachable.empty.storing _ _ (by decide) (by decide)).storing _ _ (by decide)
    (by decide)).storing _ _ (by decide) (by decide)).releasing 32 2).storing _ _ (by decide)
      (by decide)

theorem partitioned_recycled : recycled.Partitioned (.ofSettings .twoClasses) ∧
    recycled.offsets = [0, 32, 64, 112] ∧ recycled.bump = 144 ∧ recycled.liveCount = 3 :=
  ⟨Reachable.partitioned Settings.accepted_twoClasses reachable_recycled, by decide +kernel⟩

/-! ## Lists -/

/-- **The lists of free chunks are in order.** -/
structure Threaded (policy : AllocationPolicy) (s : Segment) : Prop where
  /-- However far one walks from the head of a list, the walk ends where the counter says. -/
  walk_eq : ∀ i n, s.walk ((s.freeList i).length + n) (s.freeList i).head = s.listed i
  length_eq : ∀ i, (s.listed i).length = (s.freeList i).length
  length_le : ∀ i, (s.freeList i).length ≤ policy.freeListSize
  nodup : ∀ i, (s.listed i).Nodup
  /-- A chunk on a list has links to its two neighbours there. -/
  links : ∀ i as o bs, s.listed i = as ++ o :: bs →
    s.previous o = as.getLast? ∧ s.next o = bs.head?
  /-- The chunks on a list are free, belong there by their sizes and carry its number. -/
  free_of_mem : ∀ i, ∀ o ∈ s.listed i, o ∈ s.offsets ∧ s.isFree o = true ∧
    policy.classes.listForChunk (s.chunkSize o) = i ∧ s.word o lengthField = i
  /-- A free chunk is on exactly one list, or it says that it is on none and is on none. -/
  tracked : ∀ o ∈ s.offsets, s.isFree o = true →
    (s.word o lengthField ≠ untracked ∧ ∃! i, o ∈ s.listed i) ∨
      (s.word o lengthField = untracked ∧ ∀ i, o ∉ s.listed i)
  /-- A live chunk is on no list. -/
  not_mem_of_live : ∀ o ∈ s.offsets, s.isFree o = false → ∀ i, o ∉ s.listed i

/-- A segment that represents the view that is read off it has its lists in order. -/
theorem Represents.toThreaded (hp : policy.Sound) (h : Represents policy s s.view)
    (hsettled : s.view.Settled) : s.Threaded policy := by
  have hmem : ∀ o, o ∈ s.offsets ↔ ∃ c ∈ s.view.chunks, c.start = o := by
    intro o
    rw [h.offsets_eq hp, List.mem_map]
  have hfree : ∀ c ∈ s.view.chunks, s.isFree c.start = true → c.content = .free :=
    fun c hc => h.free_of_isFree hc (hsettled c hc)
  have hunique : ∀ {i o}, o ∈ s.listed i → ∃! i, o ∈ s.listed i := fun {i o} ho =>
    ⟨i, ho, fun j hj => h.listed.eq_of_mem hj ho⟩
  refine ⟨?_, fun i => (h.listed.length i).symm, ?_, h.listed.nodup,
    ?_, ?_, ?_, ?_⟩
  · intro i n
    rw [h.listed.head, h.listed.length]
    exact (h.listed.linked i).walk_eq (Nat.le_add_right _ _)
  · intro i
    rw [h.listed.length]
    exact h.listed.bounded i
  · intro i as o bs happ
    have hlinked : s.Linked none (s.listed i) none := h.listed.linked i
    rw [happ, linked_append] at hlinked
    obtain ⟨-, hprevious, hnext, -⟩ := hlinked
    rw [Option.or_none] at hprevious hnext
    exact ⟨hprevious, hnext⟩
  · intro i o ho
    obtain ⟨c, hc, rfl, hcfree, hsize, hword⟩ := h.listed.free_of_mem i o ho
    refine ⟨(hmem _).2 ⟨c, hc, rfl⟩, h.isFree_of_free hc hcfree, ?_, hword⟩
    rwa [h.chunkSize_eq hc (hsettled c hc)]
  · intro o ho hisFree
    obtain ⟨c, hc, rfl⟩ := (hmem o).1 ho
    by_cases hword : s.word c.start lengthField = untracked
    · exact .inr ⟨hword, h.listed.not_mem_of_untracked hp hword⟩
    · exact .inl ⟨hword, hunique ((h.listed.tracked c hc (hfree c hc hisFree)).resolve_left hword)⟩
  · intro o ho hisFree i hi
    obtain ⟨c, hc, rfl⟩ := (hmem o).1 ho
    obtain ⟨d, hd, heq, hdfree, -⟩ := h.listed.free_of_mem i _ hi
    rw [← heq, h.isFree_of_free hd hdfree] at hisFree
    exact Bool.false_ne_true hisFree.symm

/-! ## Operations on lists -/

/-- Unlinking the chunk at an offset erases it from its list and leaves the other lists. -/
def ErasesAt (s : Segment) (offset : Nat) : Prop :=
  (s.unlink offset).listed = unlinkFrom s.listed offset

/-- Filing a chunk puts it on the front of the list for its size if that has room, and leaves the
other lists. -/
def ConsesAt (policy : AllocationPolicy) (s : Segment) (offset size : Nat) : Prop :=
  (s.addFree policy offset size).listed = fileOn policy s.listed offset size

/-- The stages of releasing a chunk: before merging, merged with the chunk after, and merged with
both neighbours. -/
def mergesOf (s : Segment) (chunk : LiveChunk) : List Merge :=
  let m : Merge := ⟨{ s with liveCount := s.liveCount - 1 }, chunk.offset, chunk.size⟩
  [m, m.withNext, m.withNext.withPrevious]

/-- **The operations on lists are those on plain lists**, in a segment and in the middle of storing
to it and of releasing from it. -/
structure ListOperations (policy : AllocationPolicy) (s : Segment) : Prop where
  findFit?_eq : ∀ i size limit, s.findFit? size limit (s.freeList i).head =
    ((s.listed i).take limit).find? fun o => size ≤ s.chunkSize o
  erases : ∀ o ∈ s.offsets, s.isFree o = true → s.ErasesAt o
  /-- While a chunk is released, its neighbours are unlinked and it is filed at last. -/
  merging : ∀ offset generation chunk, s.resolve? offset generation = some chunk →
    ∀ m ∈ s.mergesOf chunk, m.segment.ConsesAt policy m.start m.size ∧
      ∀ o ∈ m.segment.offsets, o ≠ m.start → m.segment.isFree o = true → m.segment.ErasesAt o
  /-- While a payload is stored, the rest of a larger chunk is filed. -/
  splitting : ∀ n offset, s.place? policy (policy.classes.classify n) = some (.reuse offset) →
    policy.classes.smallestChunk ≤ s.chunkSize offset - (policy.classes.classify n).chunkSize →
      ((s.unlink offset).mark (offset + (policy.classes.classify n).chunkSize) true).ConsesAt policy
        (offset + (policy.classes.classify n).chunkSize)
        (s.chunkSize offset - (policy.classes.classify n).chunkSize)

/-- Unlinking a free chunk erases it. -/
theorem Represents.erasesAt (hp : policy.Sound) (h : Represents policy s v) {d : Chunk}
    (hd : d ∈ v.chunks) (hfree : d.content = .free) : s.ErasesAt d.start := by
  obtain ⟨hcarved, hlisted, -⟩ := h.listed.unlink hp h.carved hd hfree
  have hrep : Represents policy (s.unlink d.start) ⟨v.chunks, unlinkFrom v.lists d.start⟩ :=
    ⟨hcarved, hlisted⟩
  unfold ErasesAt
  rw [hrep.listed_eq, h.listed_eq]

/-- Making a chunk in hand free puts it on its list. -/
theorem Represents.consesAt {pre post : List Chunk} {lists : Nat → List Nat} {d : Chunk}
    (hp : policy.Sound) (h : Represents policy s ⟨pre ++ d :: post, lists⟩)
    (hd : d.content = .taken) : s.ConsesAt policy d.start d.size := by
  unfold ConsesAt
  rw [(h.addFree hp hd).listed_eq, h.listed_eq]

/-- Filing the rest of a free chunk that is cut puts it on its list. -/
theorem Represents.consesAt_rest (hp : policy.Sound) (h : Represents policy s v) {n offset : Nat}
    {hand : Hand} (ho : v.Offers policy (policy.classes.classify n) (.reuse offset) hand)
    (hle : policy.classes.smallestChunk ≤
      s.chunkSize offset - (policy.classes.classify n).chunkSize) :
    ((s.unlink offset).mark (offset + (policy.classes.classify n).chunkSize) true).ConsesAt policy
      (offset + (policy.classes.classify n).chunkSize)
      (s.chunkSize offset - (policy.classes.classify n).chunkSize) := by
  obtain ⟨hmod, hsmall, -⟩ := h.chunkSize_bounds hp ho
  cases ho with
  | reuse hchunks hfree hfits =>
    rename_i pre post d
    obtain ⟨cs, lists⟩ := v
    obtain rfl : cs = pre ++ d :: post := hchunks
    rw [h.chunkSize_eq (c := d) (by simp) (by simp [hfree])] at hle ⊢
    have hsplit := (h.takeFree hp hfree).split rfl hmod hsmall hle hfits
    rw [List.append_cons] at hsplit
    have hconses := hsplit.consesAt hp rfl
    exact hconses

/-- In the middle of a release the operations on lists are those on plain lists. -/
theorem Merge.Holds.list_operations {m : Merge} {hand : Hand} (hp : policy.Sound)
    (hm : m.Holds policy hand) : m.segment.ConsesAt policy m.start m.size ∧
      ∀ o ∈ m.segment.offsets, o ≠ m.start → m.segment.isFree o = true → m.segment.ErasesAt o := by
  have hrep := hm.row
  rw [hm.start_eq, hm.size_eq]
  have hconses := hrep.consesAt hp rfl
  refine ⟨hconses, ?_⟩
  intro o ho hne hisFree
  rw [hrep.offsets_eq hp] at ho
  obtain ⟨c, hc, rfl⟩ := List.mem_map.1 ho
  have hlone := hm.lone c (Represents.mem_append_of_start_ne hc hne)
  exact hrep.erasesAt hp hc (hrep.free_of_isFree hc hlone hisFree)

/-- What releasing begins with is a chunk in hand. -/
theorem Represents.exists_holds (hp : policy.Sound) (h : Represents policy s v)
    (hsettled : v.Settled) {offset generation : Nat} {chunk : LiveChunk}
    (hresolve : s.resolve? offset generation = some chunk) :
    ∃ hand, Merge.Holds policy
      ⟨{ s with liveCount := s.liveCount - 1 }, chunk.offset, chunk.size⟩ hand := by
  obtain ⟨c, hc, version, payload, rfl, hlive, rfl⟩ :=
    (h.resolve?_eq_some_iff hp hsettled).1 hresolve
  obtain ⟨pre, post, hchunks⟩ := List.append_of_mem hc
  obtain ⟨cs, lists⟩ := v
  obtain rfl : cs = pre ++ c :: post := hchunks
  have htaken := h.takeLive hp ((c.isLive_eq_true_iff).2 ⟨_, _, _, hlive⟩)
  refine ⟨⟨pre.reverse, c.start, c.size, post, lists⟩, rfl, rfl, ?_, ?_⟩
  · simpa [Hand.view, Hand.put] using htaken
  · intro d hd
    rw [List.reverse_reverse] at hd
    exact hsettled d (mem_of_mem_append hd)

/-- A segment that represents the view that is read off it has the operations on plain lists. -/
theorem Represents.listOperations (hp : policy.Sound) (h : Represents policy s s.view)
    (hsettled : s.view.Settled) : s.ListOperations policy := by
  refine ⟨?_, ?_, ?_, ?_⟩
  · intro i size limit
    rw [h.listed.head]
    exact (h.listed.linked i).findFit?_eq size limit
  · intro o ho hisFree
    obtain ⟨c, hc, rfl⟩ : ∃ c ∈ s.view.chunks, c.start = o := by
      rwa [h.offsets_eq hp, List.mem_map] at ho
    exact h.erasesAt hp hc (h.free_of_isFree hc (hsettled c hc) hisFree)
  · intro offset generation chunk hresolve m hm
    obtain ⟨hand, hholds⟩ := h.exists_holds hp hsettled hresolve
    simp only [mergesOf, List.mem_cons, List.not_mem_nil, or_false] at hm
    rcases hm with rfl | rfl | rfl
    · exact hholds.list_operations hp
    · exact (hholds.withNext hp).list_operations hp
    · exact ((hholds.withNext hp).withPrevious hp).list_operations hp
  · intro n offset hplace hle
    obtain ⟨hand, ho⟩ := h.offers_of_place? hp hplace
    exact h.consesAt_rest hp ho hle

/-- **In every reachable segment the lists of free chunks are in order**, and the operations on them
are those on plain lists. -/
theorem Reachable.threaded {settings : Settings} (hs : settings.Accepted)
    (h : Reachable (.ofSettings settings) s) :
    s.Threaded (.ofSettings settings) ∧ s.ListOperations (.ofSettings settings) := by
  have hp := hs.sound.policy
  obtain ⟨hrep, hsettled⟩ := h.represents_view hp
  exact ⟨hrep.toThreaded hp hsettled, hrep.listOperations hp hsettled⟩

theorem threaded_recycled :
    (recycled.Threaded (.ofSettings .twoClasses) ∧
      recycled.ListOperations (.ofSettings .twoClasses)) ∧ recycled.listed 0 = [64] :=
  ⟨Reachable.threaded Settings.accepted_twoClasses reachable_recycled, by decide +kernel⟩

end ObjectPile.Segment
