/-
# Lists that are long enough

A free chunk that finds its list full is on no list. Chunks take at least 32 bytes each, so that no
list is ever full if the lists may hold as many chunks as a segment has stretches of 32 bytes. Every
free chunk is then on the list for its size, and the lengths of the lists are a matter of the row of
chunks alone.

* `View.Tracked` : every free chunk is on the list for its size.
* `Represents.length_lt` : some free chunks of a segment, with another chunk aside, fill no list.
* `Reachable.tracked` : with lists that are long enough, every free chunk is on its list.
* `Represents.length_eq_countP` : the length of a list is then a number of free chunks.
-/
import ObjectPile.Proofs.Coalescing

namespace ObjectPile

/-- A chunk of a row that does not hold what a given one holds is one of the others. -/
theorem Segment.Represents.mem_append_of_content_ne {pre post : List Chunk} {c d : Chunk}
    (hc : c ∈ pre ++ d :: post) (hne : c.content ≠ d.content) : c ∈ pre ++ post := by
  rcases List.mem_append.1 hc with hc | hc
  · exact List.mem_append_left _ hc
  · rcases List.mem_cons.1 hc with rfl | hc
    · exact absurd rfl hne
    · exact List.mem_append_right _ hc

/-! ## Tracked views -/

/-- Every free chunk is on the list for its size. -/
def View.Tracked (policy : AllocationPolicy) (v : View) : Prop :=
  ∀ c ∈ v.chunks, c.content = .free → c.start ∈ v.lists (policy.classes.listForChunk c.size)

/-- Every free chunk but the one in hand is on the list for its size. -/
def Hand.Tracked (policy : AllocationPolicy) (h : Hand) : Prop :=
  View.Tracked policy ⟨h.before.reverse ++ h.after, h.lists⟩

/-- The lists may hold as many chunks as can be in a segment. -/
def AllocationPolicy.LongLists (policy : AllocationPolicy) : Prop :=
  policy.segmentSize / 32 ≤ policy.freeListSize

variable {policy : AllocationPolicy} {pre post : List Chunk} {lists : Nat → List Nat} {d : Chunk}

/-- Taking a chunk off its list leaves the others on theirs. -/
theorem View.Tracked.unlink (ht : View.Tracked policy ⟨pre ++ d :: post, lists⟩)
    (hne : ∀ c ∈ pre ++ post, c.start ≠ d.start) :
    View.Tracked policy ⟨pre ++ post, Segment.unlinkFrom lists d.start⟩ := by
  intro c hc hfree
  have hmem := ht c (Segment.Represents.mem_of_mem_append hc) hfree
  exact (List.mem_erase_of_ne (hne c hc)).2 hmem

/-- Filing a chunk on a list with room leaves the others on theirs. -/
theorem View.Tracked.file (ht : View.Tracked policy ⟨pre ++ post, lists⟩) (start : Nat) {size : Nat}
    (hroom : (lists (policy.classes.listForChunk size)).length < policy.freeListSize) :
    View.Tracked policy
      ⟨pre ++ ⟨start, size, .free⟩ :: post, Segment.fileOn policy lists start size⟩ := by
  have hfile : Segment.fileOn policy lists start size =
      Function.update lists (policy.classes.listForChunk size)
        (start :: lists (policy.classes.listForChunk size)) := if_neg (Nat.not_le_of_lt hroom)
  have hold : ∀ c ∈ pre ++ post, c.content = .free → c.start ∈
      Segment.fileOn policy lists start size (policy.classes.listForChunk c.size) := by
    intro c hc hfree
    have hmem := ht c hc hfree
    rw [hfile, Function.update_apply]
    split
    · rename_i heq
      rw [heq] at hmem
      exact List.mem_cons_of_mem _ hmem
    · exact hmem
  intro c hc hfree
  rcases List.mem_append.1 hc with hc | hc
  · exact hold c (List.mem_append_left _ hc) hfree
  · rcases List.mem_cons.1 hc with rfl | hc
    · simp only
      rw [hfile, Function.update_self]
      exact List.mem_cons_self
    · exact hold c (List.mem_append_right _ hc) hfree

/-- A chunk in hand that is filled is not free, so that all is well with the lists. -/
theorem Hand.Tracked.put {h : Hand} (ht : h.Tracked policy) {content : Content}
    (hne : content ≠ .free) : (h.put content).Tracked policy := by
  intro c hc hfree
  refine ht c ?_ hfree
  apply Segment.Represents.mem_append_of_content_ne hc
  rw [hfree]
  exact hne.symm

namespace Segment

variable {s s' : Segment} {v : View} {h : Hand}

/-! ## Room on lists -/

/-- Chunks of a segment other than a given one do not fill a list that is long enough. -/
theorem Represents.length_lt (hp : policy.Sound) (hlong : policy.LongLists)
    (hrep : Represents policy s ⟨pre ++ d :: post, lists⟩) {os : List Nat} (hnodup : os.Nodup)
    (hsub : ∀ o ∈ os, ∃ c ∈ pre ++ post, c.start = o) : os.length < policy.freeListSize := by
  have hlength : os.length ≤ (pre ++ post).length := by
    have hsubset : os ⊆ (pre ++ post).map Chunk.start := fun o ho => List.mem_map.2 (hsub o ho)
    simpa using (hnodup.subperm hsubset).length_le
  have hsizes : (pre ++ d :: post).length * 32 ≤ ((pre ++ d :: post).map Chunk.size).sum := by
    have hle : ∀ n ∈ (pre ++ d :: post).map Chunk.size, 32 ≤ n := by
      intro n hn
      obtain ⟨c, hc, rfl⟩ := List.mem_map.1 hn
      exact hrep.carved.size_ge hp hc
    simpa using List.card_nsmul_le_sum _ 32 hle
  have hsum := hrep.carved.tiling.tiles.sum_size
  have hbump := hrep.carved.bump_le
  have hsize := hrep.carved.size_eq
  unfold AllocationPolicy.LongLists at hlong
  simp only [List.length_append, List.length_cons] at *
  omega

/-- While a chunk is in hand, no list that is long enough is full. -/
theorem Represents.length_lt_of_hand (hp : policy.Sound) (hlong : policy.LongLists)
    (hrep : Represents policy s h.view) (i : Nat) : (h.lists i).length < policy.freeListSize := by
  refine hrep.length_lt hp hlong (hrep.listed.nodup i) ?_
  intro o ho
  obtain ⟨c, hc, hstart, hfree, -⟩ := hrep.listed.free_of_mem i o ho
  refine ⟨c, mem_append_of_content_ne hc ?_, hstart⟩
  rw [hfree]
  simp

/-! ## Storing and releasing -/

/-- Taking a place leaves every other free chunk on its list. -/
theorem Represents.tracked_of_offers (hp : policy.Sound) (hlong : policy.LongLists)
    (hrep : Represents policy s v) (ht : v.Tracked policy) {request : ChunkRequest}
    {placement : Placement} (ho : v.Offers policy request placement h) : h.Tracked policy := by
  cases ho with
  | reuse hchunks hfree hfits =>
    rename_i pre post d
    obtain ⟨cs, lists⟩ := v
    obtain rfl : cs = pre ++ d :: post := hchunks
    have hunlinked := ht.unlink fun c hc =>
      hrep.carved.tiling.start_ne (Carved.smallest_pos hp) hc
    rcases Hand.cut_cases policy request
      ⟨pre.reverse, d.start, d.size, post, unlinkFrom lists d.start⟩ with
      ⟨-, -, heq⟩ | ⟨-, heq⟩
    · -- the rest of the chunk takes the place of the chunk, so its list has room
      rw [heq]
      unfold Hand.Tracked
      simp only [List.reverse_reverse]
      refine hunlinked.file _ (hrep.length_lt hp hlong ((hrep.listed.nodup _).erase _) ?_)
      intro o ho
      obtain ⟨hne, hmem⟩ := (hrep.listed.nodup _).mem_erase_iff.1 ho
      obtain ⟨c, hc, rfl, -⟩ := hrep.listed.free_of_mem _ o hmem
      exact ⟨c, mem_append_of_start_ne hc hne, rfl⟩
    · rw [heq]
      unfold Hand.Tracked
      simpa using hunlinked
  | extend hfits =>
    unfold Hand.Tracked
    simpa using ht

theorem Represents.tracked_withNext (hp : policy.Sound) (hrep : Represents policy s h.view)
    (ht : h.Tracked policy) : h.withNext.Tracked policy := by
  rcases h.withNext_cases with ⟨d, after, hafter, -, heq⟩ | ⟨-, heq⟩
  · rw [heq]
    unfold Hand.Tracked at *
    unfold Hand.view Hand.put at hrep
    rw [hafter] at ht hrep
    rw [List.append_cons] at hrep
    refine View.Tracked.unlink ht ?_
    intro c hc
    refine hrep.carved.tiling.start_ne (Carved.smallest_pos hp) ?_
    rw [List.append_assoc]
    exact Represents.mem_of_mem_append hc
  · rwa [heq]

theorem Represents.tracked_withPrevious (hp : policy.Sound) (hrep : Represents policy s h.view)
    (ht : h.Tracked policy) : h.withPrevious.Tracked policy := by
  rcases h.withPrevious_cases with ⟨d, before, hbefore, -, heq⟩ | ⟨-, heq⟩
  · rw [heq]
    unfold Hand.Tracked at *
    unfold Hand.view Hand.put at hrep
    rw [hbefore, List.reverse_cons, List.append_assoc] at ht hrep
    refine View.Tracked.unlink ht ?_
    intro c hc
    refine hrep.carved.tiling.start_ne (Carved.smallest_pos hp) ?_
    exact Represents.mem_of_mem_append hc
  · rwa [heq]

theorem Represents.tracked_addFree (hp : policy.Sound) (hlong : policy.LongLists)
    (hrep : Represents policy s h.view) (ht : h.Tracked policy) :
    (h.addFree policy).Tracked policy :=
  View.Tracked.file ht h.start (hrep.length_lt_of_hand hp hlong _)

theorem Represents.tracked_finish (hp : policy.Sound) (hlong : policy.LongLists)
    (hrep : Represents policy s h.view) (ht : h.Tracked policy) :
    (h.finish policy).Tracked policy := by
  unfold Hand.finish
  split
  · rename_i hafter
    unfold Hand.Tracked at ht
    rwa [hafter, List.append_nil] at ht
  · exact hrep.tracked_addFree hp hlong ht

/-- Releasing a chunk leaves every free chunk on its list. -/
theorem Merge.Holds.tracked_release {m : Merge} (hp : policy.Sound) (hlong : policy.LongLists)
    (hm : m.Holds policy h) (ht : h.Tracked policy) : (h.release policy).Tracked policy := by
  unfold Hand.release
  cases policy.mode with
  | favorSpeed => exact hm.represents.tracked_addFree hp hlong ht
  | reuseSpace =>
    have ht₁ := hm.represents.tracked_withNext hp ht
    have ht₂ := (hm.withNext hp).represents.tracked_withPrevious hp ht₁
    exact ((hm.withNext hp).withPrevious hp).represents.tracked_finish hp hlong ht₂

/-! ## Reachable segments -/

/-- **With lists that are long enough, every free chunk of a reachable segment is on its list.** -/
theorem Reachable.tracked (hp : policy.Sound) (hlong : policy.LongLists)
    (hreach : Reachable policy s) : s.view.Tracked policy := by
  induction hreach with
  | empty =>
    unfold view
    rw [chunks_empty]
    simp [View.Tracked]
  | store hreach hgen hmax hstore ih =>
    obtain ⟨hrep, hsettled⟩ := hreach.represents_view hp
    obtain ⟨placement, hand, ho, -, hrep'⟩ := hrep.store? hp hgen hmax hstore
    rw [hrep'.view_eq hp (Hand.settled_put (ho.lone hsettled) (by simp))]
    exact (hrep.tracked_of_offers hp hlong ih ho).put (by simp)
  | release hreach hresolve ih =>
    obtain ⟨hrep, hsettled⟩ := hreach.represents_view hp
    obtain ⟨hand, version, payload, hview, -, hm, hreleased⟩ :=
      hrep.exists_hand hp hsettled hresolve
    rw [hreleased]
    rw [hview] at ih
    refine hm.tracked_release hp hlong ?_
    intro c hc hfree
    exact ih c (Represents.mem_of_mem_append hc) hfree

/-- The length of a list is the number of free chunks of its sizes if they are all on it. -/
theorem Represents.length_eq_countP (hp : policy.Sound) (hrep : Represents policy s v)
    (ht : v.Tracked policy) (i : Nat) : (s.freeList i).length =
      v.chunks.countP fun c => c.isFree && policy.classes.listForChunk c.size == i := by
  rw [hrep.listed.length, List.countP_eq_length_filter, ← List.length_map Chunk.start]
  -- both are without repeats, so it is enough that they have the same members
  have hnodup := (hrep.carved.tiling.nodup_start (Carved.smallest_pos hp)).sublist
    ((List.filter_sublist (l := v.chunks) (p := fun c =>
      c.isFree && policy.classes.listForChunk c.size == i)).map Chunk.start)
  refine List.Perm.length_eq ((List.perm_ext_iff_of_nodup (hrep.listed.nodup i) hnodup).2 ?_)
  intro o
  simp only [List.mem_map, List.mem_filter, Bool.and_eq_true, beq_iff_eq, Chunk.isFree_eq_true_iff]
  constructor
  · intro ho
    obtain ⟨c, hc, rfl, hfree, hlist, -⟩ := hrep.listed.free_of_mem i o ho
    exact ⟨c, ⟨hc, hfree, hlist⟩, rfl⟩
  · rintro ⟨c, ⟨hc, hfree, rfl⟩, rfl⟩
    exact ht c hc hfree

end Segment

end ObjectPile
