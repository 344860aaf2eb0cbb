/-
# Coalescing

Releasing a chunk makes it free, and where space is reused it settles the row of chunks again. No
free chunk is therefore followed by another one or by the cursor, whether or not the free chunks are
on lists, and a segment from which everything was released is as good as new.

* `Hand.chunks_release` : releasing settles the row with the chunk freed.
* `View.Offers.spaced_put` : storing leaves the row spaced.
* `Reachable.chunks_release` : what releasing does to the chunks of a reachable segment.
* `Reachable.unfragmented` : where space is reused, no fragments are left behind.
-/
import ObjectPile.Proofs.Integrity
import ObjectPile.Proofs.Rows

namespace ObjectPile

/-- What becomes of a row in which a chunk has become free. -/
def AllocationMode.settle (mode : AllocationMode) (cs : List Chunk) : List Chunk :=
  match mode with
  | .favorSpeed => cs
  | .reuseSpace => ObjectPile.settle cs

/-! ## Releasing on hands -/

namespace Hand

variable {policy : AllocationPolicy} {h : Hand}

theorem before_withNext (h : Hand) : h.withNext.before = h.before := by
  rcases h.withNext_cases with ⟨d, after, -, -, heq⟩ | ⟨-, heq⟩ <;> rw [heq]

theorem after_withPrevious (h : Hand) : h.withPrevious.after = h.after := by
  rcases h.withPrevious_cases with ⟨d, before, -, -, heq⟩ | ⟨-, heq⟩ <;> rw [heq]

/-- Merging with the chunk after settles to the same row. -/
theorem settle_withNext (hafter : Spaced true h.after) :
    settle (h.withNext.put .free).chunks = settle (h.put .free).chunks := by
  rcases h.withNext_cases with ⟨d, after, heq, hfree, hnext⟩ | ⟨-, hnext⟩
  · rw [hnext]
    rw [heq] at hafter
    refine settle_append_congr _ ?_
    have hd : d.isFree = true := d.isFree_eq_true_iff.2 hfree
    rw [heq, settle_cons, settle_cons, settle_eq_self hafter, settle_eq_self hafter.2,
      absorb_cons_of_free rfl hd, absorb_of_freeAhead (hafter.1 hd)]
  · rw [hnext]

/-- After merging with the chunk after, none that is free follows. -/
theorem spaced_withNext (hafter : Spaced true h.after) :
    Spaced true h.withNext.after ∧ freeAhead false h.withNext.after = false := by
  rcases h.withNext_cases with ⟨d, after, heq, hfree, hnext⟩ | ⟨hnone, hnext⟩
  · rw [hnext]
    rw [heq] at hafter
    refine ⟨hafter.2, ?_⟩
    have hahead := hafter.1 (d.isFree_eq_true_iff.2 hfree)
    cases after with
    | nil => rfl
    | cons e after => exact hahead
  · rw [hnext]
    refine ⟨hafter, ?_⟩
    cases heq : h.after with
    | nil => rfl
    | cons d after =>
      rw [heq] at hnone
      exact Chunk.isFree_eq_false_iff.2 (hnone d rfl)

/-- Merging with the chunk before settles to the same row. -/
theorem settle_withPrevious (h : Hand) :
    settle (h.withPrevious.put .free).chunks = settle (h.put .free).chunks := by
  rcases h.withPrevious_cases with ⟨d, before, heq, hfree, hprevious⟩ | ⟨-, hprevious⟩
  · have hd : d.isFree = true := d.isFree_eq_true_iff.2 hfree
    simp only [hprevious, put, heq, List.reverse_cons, List.append_assoc, List.singleton_append]
    refine settle_append_congr _ ?_
    simp only [settle_cons]
    rw [absorb_absorb hd rfl, Nat.add_comm]
  · rw [hprevious]

/-- After merging with the chunk before, none that is free precedes. -/
theorem spaced_withPrevious (hbefore : Spaced false h.before.reverse) :
    Spaced true h.withPrevious.before.reverse := by
  rcases h.withPrevious_cases with ⟨d, before, heq, hfree, hprevious⟩ | ⟨hnone, hprevious⟩
  · rw [hprevious]
    rw [heq, List.reverse_cons, spaced_append, freeAhead_cons, d.isFree_eq_true_iff.2 hfree]
      at hbefore
    exact hbefore.1
  · rw [hprevious]
    refine hbefore.of_getLast? ?_
    intro d hd
    rw [List.getLast?_reverse] at hd
    exact Chunk.isFree_eq_false_iff.2 (hnone d hd)

/-- Between chunks that are not free, a chunk stays free by itself or dissolves at the end. -/
theorem chunks_finish (policy : AllocationPolicy) (hbefore : Spaced true h.before.reverse)
    (hafter : Spaced true h.after) (hahead : freeAhead false h.after = false) :
    (h.finish policy).chunks = settle (h.put .free).chunks := by
  unfold finish
  split
  · rename_i hnil
    have hlast : settle [⟨h.start, h.size, .free⟩] = [] := by
      rw [settle_cons, settle_nil, absorb_nil (Chunk.isFree_eq_true_iff _ |>.2 rfl)]
    simp only [put, hnil]
    rw [settle_append (by rwa [hlast]), hlast, List.append_nil]
  · rename_i hne
    have hstays : settle (⟨h.start, h.size, .free⟩ :: h.after) =
        ⟨h.start, h.size, .free⟩ :: h.after := by
      rw [settle_cons, settle_eq_self hafter]
      apply absorb_of_freeAhead
      cases heq : h.after with
      | nil => exact absurd heq hne
      | cons d after =>
        rw [heq] at hahead
        exact hahead
    simp only [addFree, put]
    rw [settle_append (by rwa [hstays]), hstays]

/-- **Where space is reused, releasing settles the row with the chunk freed.** -/
theorem chunks_release (hmode : policy.mode = .reuseSpace) (hbefore : Spaced false h.before.reverse)
    (hafter : Spaced true h.after) :
    (h.release policy).chunks = settle (h.put .free).chunks := by
  obtain ⟨hafter', hahead⟩ := spaced_withNext hafter
  rw [← settle_withNext hafter, ← settle_withPrevious]
  unfold release
  rw [hmode]
  refine chunks_finish policy ?_ ?_ ?_
  · apply spaced_withPrevious
    rwa [before_withNext]
  · rwa [after_withPrevious]
  · rwa [after_withPrevious]

end Hand

/-! ## Storing on views -/

/-- **Where space is reused, storing leaves the row spaced**: what is cut off a free chunk is followed
by what followed that, and a new chunk is not free. -/
theorem View.Offers.spaced_put {policy : AllocationPolicy} {request : ChunkRequest} {v : View}
    {placement : Placement} {h : Hand} (ho : v.Offers policy request placement h)
    (hspaced : Spaced true v.chunks) {content : Content} (hcontent : content ≠ .free) :
    Spaced true (h.put content).chunks := by
  have hnew : ∀ start size : Nat, (⟨start, size, content⟩ : Chunk).isFree = false :=
    fun _ _ => Chunk.isFree_eq_false_iff.2 hcontent
  cases ho with
  | reuse hchunks hfree hfits =>
    rename_i pre post d
    rw [hchunks] at hspaced
    obtain ⟨-, hahead, hpost⟩ := (spaced_append true pre _).1 hspaced
    rcases Hand.cut_cases policy request
      ⟨pre.reverse, d.start, d.size, post, Segment.unlinkFrom v.lists d.start⟩ with
      ⟨-, -, heq⟩ | ⟨-, heq⟩
    · rw [heq]
      simp only [Hand.put, List.reverse_reverse]
      exact hspaced.replace (hnew _ _) ⟨fun _ => hahead (d.isFree_eq_true_iff.2 hfree), hpost⟩
    · rw [heq]
      simp only [Hand.put, List.reverse_reverse]
      exact hspaced.replace (hnew _ _) hpost
  | extend hfits =>
    simp only [Hand.put, List.reverse_reverse]
    refine (spaced_append true _ _).2 ⟨?_, fun hfree => by simp [hnew] at hfree, trivial⟩
    exact hspaced.mono (Bool.le_true _)

namespace Settings

/-- The standard settings with two small classes and no room on the lists of free chunks. -/
def withoutLists : Settings := { twoClasses with freeListSize := 0 }

theorem accepted_withoutLists : withoutLists.Accepted :=
  @Accepted.apply .twoClasses _ { freeListSize := some 0 } accepted_twoClasses (by decide) rfl

end Settings

namespace Segment

variable {policy : AllocationPolicy} {s s' : Segment} {v : View}

/-! ## Chunks of reachable segments -/

/-- Releasing a live chunk of a segment takes it into hand and releases it there. -/
theorem Represents.exists_hand (hp : policy.Sound) (h : Represents policy s s.view)
    (hsettled : s.view.Settled) {offset generation : Nat} {chunk : LiveChunk}
    (hresolve : s.resolve? offset generation = some chunk) :
    ∃ hand version payload, s.view = Hand.put hand (.live generation version payload) ∧
      hand.start = offset ∧
      Merge.Holds policy ⟨{ s with liveCount := s.liveCount - 1 }, chunk.offset, chunk.size⟩ hand ∧
      (s.release policy chunk).view = hand.release policy := by
  obtain ⟨c, hc, version, payload, rfl, hlive, rfl⟩ :=
    (h.resolve?_eq_some_iff hp hsettled).1 hresolve
  obtain ⟨pre, post, hchunks⟩ := List.append_of_mem hc
  obtain ⟨start, size, content⟩ := c
  obtain rfl : content = .live generation version payload := hlive
  have hview : s.view = ⟨pre ++ ⟨start, size, .live generation version payload⟩ :: post,
      s.listed⟩ := by
    rw [← hchunks]
    rfl
  rw [hview] at h hsettled
  have htaken := h.takeLive hp rfl
  have hlone : Hand.Lone ⟨pre.reverse, start, size, post, s.listed⟩ := by
    intro d hd
    rw [List.reverse_reverse] at hd
    exact hsettled d (mem_of_mem_append hd)
  have hrep : Represents policy (s.release policy ⟨start, size, payload.length, version⟩)
      (Hand.release policy ⟨pre.reverse, start, size, post, s.listed⟩) :=
    h.release hp rfl hsettled rfl rfl
  refine ⟨⟨pre.reverse, start, size, post, s.listed⟩, version, payload, ?_, rfl, ⟨rfl, rfl, ?_,
    hlone⟩, hrep.view_eq hp (Hand.settled_release policy hlone)⟩
  · rw [hview]
    simp [Hand.put]
  · simpa [Hand.view, Hand.put] using htaken

theorem chunks_empty (policy : AllocationPolicy) : (empty policy).chunks = [] := by
  simp [chunks, offsets, empty]

/-- **Where space is reused, the chunks of a reachable segment are spaced.** -/
theorem Reachable.spaced (hp : policy.Sound) (hmode : policy.mode = .reuseSpace)
    (h : Reachable policy s) : Spaced true s.chunks := by
  induction h with
  | empty =>
    rw [chunks_empty]
    trivial
  | store hreach hgen hmax hstore ih =>
    obtain ⟨hrep, hsettled⟩ := hreach.represents_view hp
    obtain ⟨placement, hand, ho, -, hrep'⟩ := hrep.store? hp hgen hmax hstore
    have hview := hrep'.view_eq hp (Hand.settled_put (ho.lone hsettled) (by simp))
    have hchunks := congrArg View.chunks hview
    unfold view at hchunks
    simp only at hchunks
    rw [hchunks]
    exact ho.spaced_put ih (by simp)
  | release hreach hresolve ih =>
    obtain ⟨hrep, hsettled⟩ := hreach.represents_view hp
    obtain ⟨hand, version, payload, hview, -, -, hreleased⟩ :=
      hrep.exists_hand hp hsettled hresolve
    have hchunks := congrArg View.chunks hview
    have hchunks' := congrArg View.chunks hreleased
    simp only [view, Hand.put] at hchunks hchunks'
    rw [hchunks, spaced_append] at ih
    rw [hchunks', Hand.chunks_release hmode ih.1 ih.2.2]
    exact spaced_settle _

/-- **Releasing frees the chunk at the offset and, where space is reused, settles the row.** -/
theorem Reachable.chunks_release (hp : policy.Sound) (h : Reachable policy s)
    {offset generation : Nat} {chunk : LiveChunk}
    (hresolve : s.resolve? offset generation = some chunk) :
    (s.release policy chunk).chunks = policy.mode.settle (freeAt offset s.chunks) := by
  obtain ⟨hrep, hsettled⟩ := h.represents_view hp
  obtain ⟨hand, version, payload, hview, rfl, -, hreleased⟩ :=
    hrep.exists_hand hp hsettled hresolve
  have hchunks := congrArg View.chunks hview
  have hchunks' := congrArg View.chunks hreleased
  have htiling : Tiling policy.classes.smallestChunk s.chunks s.bump := hrep.carved.tiling
  simp only [view, Hand.put] at hchunks hchunks'
  rw [hchunks] at htiling
  have hfreed : freeAt hand.start s.chunks = (hand.put .free).chunks := by
    rw [hchunks]
    exact freeAt_append fun d hd => htiling.start_ne (Carved.smallest_pos hp) hd
  rw [hchunks', hfreed]
  cases hmode : policy.mode with
  | favorSpeed =>
    unfold Hand.release
    rw [hmode]
    rfl
  | reuseSpace =>
    have hspaced := h.spaced hp hmode
    rw [hchunks, spaced_append] at hspaced
    exact Hand.chunks_release hmode hspaced.1 hspaced.2.2

/-! ## No fragments -/

/-- **No fragments are left behind.** -/
structure Unfragmented (s : Segment) : Prop where
  /-- Of two chunks that lie side by side at most one is free. -/
  neighbour : ∀ o ∈ s.offsets, o + s.chunkSize o ∈ s.offsets → s.isFree o = true →
    s.isFree (o + s.chunkSize o) = false
  /-- Unless the cursor is at the start, a chunk ends there. -/
  exists_last : s.bump ≠ 0 → ∃ o ∈ s.offsets, o + s.chunkSize o = s.bump
  /-- The chunk that ends at the cursor is live. -/
  last : ∀ o ∈ s.offsets, o + s.chunkSize o = s.bump → s.isFree o = false
  countP_isFree_le : s.offsets.countP s.isFree ≤ s.liveCount
  /-- A segment without live chunks is as good as new. -/
  pristine : s.liveCount = 0 →
    s.bump = 0 ∧ (∀ k, s.starts.get k = false) ∧ ∀ i, s.freeList i = {}

/-- The header of a chunk in a view without a chunk in hand says whether it is free. -/
theorem Represents.isFree_eq (h : Represents policy s v) (hsettled : v.Settled) {c : Chunk}
    (hc : c ∈ v.chunks) : s.isFree c.start = c.isFree := by
  cases hfree : c.isFree with
  | true => exact h.isFree_of_free hc (c.isFree_eq_true_iff.1 hfree)
  | false => exact h.isFree_of_not_free hc (hsettled c hc) (Chunk.isFree_eq_false_iff.1 hfree)

/-- In a view without a chunk in hand, the chunks that are not free are live. -/
theorem Represents.countP_isFree_le (h : Represents policy s v) (hsettled : v.Settled)
    (hspaced : Spaced true v.chunks) : v.chunks.countP Chunk.isFree ≤ s.liveCount := by
  rw [h.carved.liveCount_eq]
  refine hspaced.countP_isFree_le.trans (Nat.le_of_eq ?_)
  apply List.countP_congr
  intro c hc
  have hsettled := hsettled c hc
  unfold Chunk.isFree Chunk.isLive
  cases hcontent : c.content with
  | live g version payload => simp
  | free => simp
  | taken => exact absurd hcontent hsettled

/-- A segment without chunks is as good as new. -/
theorem Represents.pristine {lists : Nat → List Nat} (h : Represents policy s ⟨[], lists⟩) :
    s.bump = 0 ∧ (∀ k, s.starts.get k = false) ∧ ∀ i, s.freeList i = {} := by
  refine ⟨h.carved.tiling.tiles.symm, ?_, ?_⟩
  · intro k
    rw [← Bool.not_eq_true, h.carved.marks]
    simp
  · intro i
    have hnil : lists i = [] := by
      rw [List.eq_nil_iff_forall_not_mem]
      intro o ho
      obtain ⟨c, hc, -⟩ := h.listed.free_of_mem i o ho
      exact absurd hc (List.not_mem_nil)
    have hhead : (s.freeList i).head = (lists i).head? := h.listed.head i
    have hlength : (s.freeList i).length = (lists i).length := h.listed.length i
    rw [hnil] at hhead hlength
    generalize s.freeList i = l at *
    obtain ⟨head, length⟩ := l
    obtain rfl : head = none := hhead
    obtain rfl : length = 0 := hlength
    rfl

/-- The header of a chunk in a view without a chunk in hand says where the chunk stops. -/
theorem Represents.add_chunkSize_eq (h : Represents policy s v) (hsettled : v.Settled) {c : Chunk}
    (hc : c ∈ v.chunks) : c.start + s.chunkSize c.start = c.stop := by
  rw [h.chunkSize_eq hc (hsettled c hc)]
  rfl

theorem Represents.start_lt_bump (hp : policy.Sound) (h : Represents policy s v) {c : Chunk}
    (hc : c ∈ v.chunks) : c.start < s.bump := by
  have hsize := h.carved.size_ge hp hc
  have hle := h.carved.tiling.stop_le hc
  unfold Chunk.stop at hle
  omega

/-- A chunk is the last one and stops at the cursor, or another one follows where it stops. -/
theorem Represents.next_cases (h : Represents policy s v) {c : Chunk} (hc : c ∈ v.chunks) :
    (∃ pre, v.chunks = pre ++ [c] ∧ c.stop = s.bump) ∨
      ∃ pre d post, v.chunks = pre ++ c :: d :: post ∧ c.stop = d.start := by
  obtain ⟨pre, post, hchunks⟩ := List.append_of_mem hc
  have hrep : Represents policy s ⟨pre ++ c :: post, v.lists⟩ := by rwa [← hchunks]
  have hnext := hrep.stop_eq
  cases post with
  | nil => exact .inl ⟨pre, hchunks, hnext⟩
  | cons d post => exact .inr ⟨pre, d, post, hchunks, hnext⟩

/-- In a spaced view, the chunk that starts where a free one stops is not free. -/
theorem Represents.isFree_eq_false_of_stop_eq (hp : policy.Sound) (h : Represents policy s v)
    (hspaced : Spaced true v.chunks) {c d : Chunk} (hc : c ∈ v.chunks) (hd : d ∈ v.chunks)
    (hstop : c.stop = d.start) (hfree : c.isFree = true) : d.isFree = false := by
  rcases h.next_cases hc with ⟨pre, -, hbump⟩ | ⟨pre, e, post, hchunks, hnext⟩
  · have hlt := h.start_lt_bump hp hd
    omega
  · have he : e ∈ v.chunks := by simp [hchunks]
    obtain rfl := h.carved.eq_of_start_eq hp he hd (hnext.symm.trans hstop)
    rw [hchunks] at hspaced
    exact hspaced.isFree_eq_false hfree

/-- In a spaced view, the chunk that stops at the cursor is not free. -/
theorem Represents.isFree_eq_false_of_stop_eq_bump (hp : policy.Sound) (h : Represents policy s v)
    (hspaced : Spaced true v.chunks) {c : Chunk} (hc : c ∈ v.chunks) (hstop : c.stop = s.bump) :
    c.isFree = false := by
  rcases h.next_cases hc with ⟨pre, hchunks, -⟩ | ⟨pre, d, post, hchunks, hnext⟩
  · rw [hchunks, spaced_append] at hspaced
    by_contra hfree
    rw [Bool.not_eq_false] at hfree
    exact Bool.noConfusion (hspaced.2.1 hfree)
  · have hlt := h.start_lt_bump hp (c := d) (by simp [hchunks])
    omega

/-- Unless the cursor is at the start, a chunk stops there. -/
theorem Represents.exists_stop_eq_bump (h : Represents policy s v) (hbump : s.bump ≠ 0) :
    ∃ c ∈ v.chunks, c.stop = s.bump := by
  rcases List.eq_nil_or_concat v.chunks with hnil | ⟨pre, c, hchunks⟩
  · have htiles := h.carved.tiling.tiles
    rw [hnil] at htiles
    exact absurd htiles.symm hbump
  · rw [List.concat_eq_append] at hchunks
    have hrep : Represents policy s ⟨pre ++ [c], v.lists⟩ := by rwa [← hchunks]
    exact ⟨c, by simp [hchunks], hrep.stop_eq⟩

/-- A spaced view without live chunks has no chunks. -/
theorem Represents.chunks_eq_nil (h : Represents policy s v) (hsettled : v.Settled)
    (hspaced : Spaced true v.chunks) (hzero : s.liveCount = 0) : v.chunks = [] := by
  have hfree := h.countP_isFree_le hsettled hspaced
  have hlive := h.carved.liveCount_eq
  rw [hzero] at hfree hlive
  rw [List.eq_nil_iff_forall_not_mem]
  intro c hc
  have hnotFree := List.countP_eq_zero.1 (Nat.le_zero.1 hfree) c hc
  have hnotLive := List.countP_eq_zero.1 hlive.symm c hc
  rw [Chunk.isFree_eq_true_iff] at hnotFree
  unfold Chunk.isLive at hnotLive
  cases hcontent : c.content with
  | live g version payload => simp [hcontent] at hnotLive
  | free => exact hnotFree hcontent
  | taken => exact hsettled c hc hcontent

/-- A segment that represents a spaced view has no fragments. -/
theorem Represents.toUnfragmented (hp : policy.Sound) (h : Represents policy s v)
    (hsettled : v.Settled) (hspaced : Spaced true v.chunks) : s.Unfragmented := by
  have hoffsets := h.offsets_eq hp
  refine ⟨?_, ?_, ?_, ?_, ?_⟩
  · intro o ho hnext hfree
    rw [hoffsets] at ho hnext
    obtain ⟨c, hc, rfl⟩ := List.mem_map.1 ho
    obtain ⟨d, hd, hstart⟩ := List.mem_map.1 hnext
    rw [h.isFree_eq hsettled hc] at hfree
    rw [← hstart, h.isFree_eq hsettled hd]
    rw [h.add_chunkSize_eq hsettled hc] at hstart
    exact h.isFree_eq_false_of_stop_eq hp hspaced hc hd hstart.symm hfree
  · intro hbump
    obtain ⟨c, hc, hstop⟩ := h.exists_stop_eq_bump hbump
    refine ⟨c.start, ?_, ?_⟩
    · rw [hoffsets]
      exact List.mem_map_of_mem hc
    · rw [h.add_chunkSize_eq hsettled hc, hstop]
  · intro o ho hlast
    rw [hoffsets] at ho
    obtain ⟨c, hc, rfl⟩ := List.mem_map.1 ho
    rw [h.add_chunkSize_eq hsettled hc] at hlast
    rw [h.isFree_eq hsettled hc]
    exact h.isFree_eq_false_of_stop_eq_bump hp hspaced hc hlast
  · rw [hoffsets, List.countP_map]
    refine Nat.le_trans (Nat.le_of_eq (List.countP_congr ?_))
      (h.countP_isFree_le hsettled hspaced)
    intro c hc
    rw [Function.comp_apply, h.isFree_eq hsettled hc]
  · intro hzero
    have hnil := h.chunks_eq_nil hsettled hspaced hzero
    have hrep : Represents policy s ⟨[], v.lists⟩ := by rwa [← hnil]
    exact hrep.pristine

/-- **Where space is reused, no fragments are left behind in any reachable segment**, however many
free chunks the lists hold: free chunks are never side by side nor before the cursor, there are not
more of them than live ones, and without live chunks the segment is as good as new. -/
theorem Reachable.unfragmented {settings : Settings} (hs : settings.Accepted)
    (hmode : settings.allocMode = .reuseSpace) (h : Reachable (.ofSettings settings) s) :
    s.Unfragmented := by
  obtain ⟨hrep, hsettled⟩ := h.represents_view hs.sound.policy
  exact hrep.toUnfragmented hs.sound.policy hsettled (h.spaced hs.sound.policy hmode)

/-- A segment without room on its lists, in which two chunks were released that lie side by side. -/
def coalesced : Segment :=
  let policy : AllocationPolicy := .ofSettings .withoutLists
  let s := storing policy (empty policy) [1, 2, 3] .raw 1
  let s := storing policy s (List.replicate 17 7) .raw 2
  let s := storing policy s [] .raw 3
  releasing policy (releasing policy s 0 1) 32 2

theorem reachable_coalesced : Reachable (.ofSettings .withoutLists) coalesced :=
  ((((Reachable.empty.storing _ _ (by decide) (by decide)).storing _ _ (by decide)
    (by decide)).storing _ _ (by decide) (by decide)).releasing 0 1).releasing 32 2

theorem unfragmented_coalesced : coalesced.Unfragmented ∧
    coalesced.offsets = [0, 112] ∧ coalesced.isFree 0 = true ∧ coalesced.listed 1 = [] :=
  ⟨Reachable.unfragmented Settings.accepted_withoutLists rfl reachable_coalesced,
    by decide +kernel⟩

end Segment

end ObjectPile
