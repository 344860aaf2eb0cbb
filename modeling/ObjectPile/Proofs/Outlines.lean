/-
# Outlines of segments

An outline is what deletes in any order agree about: the row of chunks of a segment, and where speed
is favoured the lengths of its lists too. Where space is reused the lists are left out, for which
chunks stay on them while they are full depends on the order of the merges.

* `Outline.release`, `Outline.delete` : a chunk is released, and a segment without live chunks given
  up.
* `Outline.release_comm`, `Outline.delete_comm` : the order makes no difference.
* `Reachable.outline_release` : releasing a chunk of a segment is releasing it from the outline.
* `Reachable.alike` : segments with the same outline are alike.
-/
import ObjectPile.Proofs.Contents
import ObjectPile.Proofs.Tracking

namespace ObjectPile

/-- What deletes in any order agree about in a segment. -/
@[ext] structure Outline where
  chunks : List Chunk
  /-- The lengths of the lists where speed is favoured. -/
  lengths : Nat → Nat

/-! ## Rows -/

/-- The size of the chunk at an offset. -/
def sizeAt (offset : Nat) (cs : List Chunk) : Nat :=
  ((cs.find? fun c => c.start == offset).map Chunk.size).getD 0

/-- A chunk that becomes free keeps its size. -/
theorem sizeAt_freeAt (o o' : Nat) (cs : List Chunk) : sizeAt o (freeAt o' cs) = sizeAt o cs := by
  have hsame : ∀ c : Chunk, (if c.start = o' then c.freed else c).start = c.start ∧
      (if c.start = o' then c.freed else c).size = c.size := by
    intro c
    split <;> exact ⟨rfl, rfl⟩
  unfold sizeAt freeAt
  rw [List.find?_map, Option.map_map]
  have hstart : (fun c : Chunk => c.start == o) ∘ (fun c => if c.start = o' then c.freed else c) =
      fun c => c.start == o := by
    funext c
    simp [(hsame c).1]
  have hsize : Chunk.size ∘ (fun c => if c.start = o' then c.freed else c) = Chunk.size := by
    funext c
    simp [(hsame c).2]
  rw [hstart, hsize]

/-- In a row of which one chunk starts at an offset, it is the one whose size counts. -/
theorem sizeAt_append {pre post : List Chunk} {d : Chunk} (hne : ∀ c ∈ pre, c.start ≠ d.start) :
    sizeAt d.start (pre ++ d :: post) = d.size := by
  have hnone : pre.find? (fun c => c.start == d.start) = none := by
    rw [List.find?_eq_none]
    intro c hc
    simpa using hne c hc
  unfold sizeAt
  rw [List.find?_append, hnone, Option.none_or, List.find?_cons_of_pos (by simp)]
  rfl

/-- Freeing a chunk leaves no live one that was not there. -/
theorem any_isLive_of_freeAt {offset : Nat} {cs : List Chunk}
    (h : (freeAt offset cs).any Chunk.isLive = true) : cs.any Chunk.isLive = true := by
  unfold freeAt at h
  rw [List.any_map, List.any_eq_true] at h
  rw [List.any_eq_true]
  obtain ⟨c, hc, hlive⟩ := h
  refine ⟨c, hc, ?_⟩
  rw [Function.comp_apply] at hlive
  split at hlive
  · exact absurd hlive (by simp [Chunk.freed, Chunk.isLive])
  · exact hlive

theorem any_isLive_absorb (c : Chunk) (cs : List Chunk) :
    (absorb c cs).any Chunk.isLive = (c.isLive || cs.any Chunk.isLive) := by
  have hnotLive : ∀ d : Chunk, d.isFree = true → d.isLive = false := fun d hd =>
    Chunk.isLive_eq_false_of_free (d.isFree_eq_true_iff.1 hd)
  unfold absorb
  split
  · rename_i hc
    split
    · simp [hnotLive c hc]
    · split
      · rename_i hd
        rw [List.any_cons, List.any_cons, hnotLive c hc, hnotLive _ hd]
        rfl
      · simp
  · simp

/-- Settling a row leaves its live chunks. -/
theorem any_isLive_settle (mode : AllocationMode) (cs : List Chunk) :
    (mode.settle cs).any Chunk.isLive = cs.any Chunk.isLive := by
  cases mode with
  | favorSpeed => rfl
  | reuseSpace =>
    unfold AllocationMode.settle
    induction cs with
    | nil => rfl
    | cons c cs ih => rw [settle_cons, any_isLive_absorb, ih, List.any_cons]

/-- In either mode it makes no difference whether a row was settled before. -/
theorem AllocationMode.settle_freeAt_settle (mode : AllocationMode) (offset : Nat)
    (cs : List Chunk) :
    mode.settle (freeAt offset (mode.settle cs)) = mode.settle (freeAt offset cs) := by
  cases mode with
  | favorSpeed => rfl
  | reuseSpace => exact ObjectPile.settle_freeAt_settle offset cs

/-! ## Lengths -/

/-- The lengths of lists of at most `limit` chunks, after one more is filed on a list. -/
def grow (limit : Nat) (lengths : Nat → Nat) (list : Nat) : Nat → Nat :=
  Function.update lengths list (min limit (lengths list + 1))

theorem grow_comm (limit : Nat) (lengths : Nat → Nat) (i j : Nat) :
    grow limit (grow limit lengths i) j = grow limit (grow limit lengths j) i := by
  by_cases hij : i = j
  · rw [hij]
  · unfold grow
    rw [Function.update_of_ne (Ne.symm hij), Function.update_of_ne hij, Function.update_comm hij]

/-- Filing a chunk makes its list longer, up to the limit. -/
theorem Segment.length_fileOn {policy : AllocationPolicy} {lists : Nat → List Nat}
    (hbounded : ∀ i, (lists i).length ≤ policy.freeListSize) (offset size : Nat) :
    (fun i => (fileOn policy lists offset size i).length) =
      grow policy.freeListSize (fun i => (lists i).length) (policy.classes.listForChunk size) := by
  have hle := hbounded (policy.classes.listForChunk size)
  funext i
  unfold fileOn grow
  simp only [Function.update_apply]
  split
  · split
    · rename_i hi
      rw [hi]
      omega
    · rfl
  · rw [Function.update_apply]
    split
    · rw [List.length_cons]
      omega
    · rfl

namespace Outline

variable {policy : AllocationPolicy}

/-! ## Deletes -/

/-- The outline after the chunk at an offset is released. -/
def release (policy : AllocationPolicy) (x : Outline) (offset : Nat) : Outline where
  chunks := policy.mode.settle (freeAt offset x.chunks)
  lengths :=
    match policy.mode with
    | .favorSpeed =>
      grow policy.freeListSize x.lengths (policy.classes.listForChunk (sizeAt offset x.chunks))
    | .reuseSpace => x.lengths

/-- Whether a chunk is live. -/
def isInUse (x : Outline) : Bool := x.chunks.any Chunk.isLive

/-- What is left in a slot after the chunk at an offset is deleted there. -/
def delete (policy : AllocationPolicy) (slot : Option Outline) (offset : Nat) : Option Outline :=
  (slot.map fun x => x.release policy offset).filter isInUse

/-- **Chunks are released in any order.** -/
theorem release_comm (x : Outline) (o o' : Nat) :
    (x.release policy o).release policy o' = (x.release policy o').release policy o := by
  ext1
  · simp only [release]
    rw [policy.mode.settle_freeAt_settle, policy.mode.settle_freeAt_settle, freeAt_comm]
  · simp only [release]
    cases policy.mode with
    | favorSpeed =>
      simp only [AllocationMode.settle, sizeAt_freeAt]
      exact grow_comm ..
    | reuseSpace => rfl

theorem isInUse_of_release {x : Outline} {offset : Nat}
    (h : (x.release policy offset).isInUse = true) : x.isInUse = true := by
  unfold isInUse release at *
  rw [any_isLive_settle] at h
  exact any_isLive_of_freeAt h

/-- A segment may be given up at any time, as no chunk of it comes back to life. -/
theorem delete_delete (slot : Option Outline) (o o' : Nat) :
    delete policy (delete policy slot o) o' =
      (slot.map fun x => (x.release policy o).release policy o').filter isInUse := by
  unfold delete
  cases slot with
  | none => rfl
  | some x =>
    simp only [Option.map_some]
    cases hinUse : (x.release policy o).isInUse with
    | true => rw [Option.filter_some_pos hinUse, Option.map_some]
    | false =>
      have hnot : ((x.release policy o).release policy o').isInUse = false := by
        rw [← Bool.not_eq_true] at hinUse ⊢
        exact fun h => hinUse (isInUse_of_release h)
      rw [Option.filter_some_neg hinUse, Option.filter_some_neg hnot]
      rfl

/-- **Chunks of a segment are deleted in any order.** -/
theorem delete_comm (slot : Option Outline) (o o' : Nat) :
    delete policy (delete policy slot o) o' = delete policy (delete policy slot o') o := by
  rw [delete_delete, delete_delete]
  simp only [release_comm]

end Outline

/-! ## Segments -/

namespace Segment

variable {policy : AllocationPolicy} {s s' : Segment}

/-- The outline of a segment. -/
def outline (policy : AllocationPolicy) (s : Segment) : Outline where
  chunks := s.chunks
  lengths := fun i =>
    match policy.mode with
    | .favorSpeed => (s.freeList i).length
    | .reuseSpace => 0

/-- **Releasing a chunk of a segment is releasing it from the outline.** -/
theorem Reachable.outline_release (hp : policy.Sound) (h : Reachable policy s)
    {offset generation : Nat} {chunk : LiveChunk}
    (hresolve : s.resolve? offset generation = some chunk) :
    (s.release policy chunk).outline policy = (s.outline policy).release policy offset := by
  obtain ⟨hrep, hsettled⟩ := h.represents_view hp
  obtain ⟨hrep', -⟩ := (h.release hresolve).represents_view hp
  obtain ⟨hand, version, payload, hview, hstart, -, hreleased⟩ :=
    hrep.exists_hand hp hsettled hresolve
  ext1
  · exact h.chunks_release hp hresolve
  · cases hmode : policy.mode with
    | reuseSpace => simp only [outline, Outline.release, hmode]
    | favorSpeed =>
      -- the lists are those of the hand with the chunk filed
      have hchunks := congrArg View.chunks hview
      have hlists : s.listed = hand.lists := congrArg View.lists hview
      have hlists' := congrArg View.lists hreleased
      have htiling : Tiling policy.classes.smallestChunk s.chunks s.bump := hrep.carved.tiling
      simp only [view, Hand.put, Hand.release, Hand.addFree, hmode] at hchunks hlists'
      have hsize : sizeAt offset s.chunks = hand.size := by
        rw [hchunks] at htiling ⊢
        rw [← hstart]
        refine sizeAt_append (d := ⟨hand.start, hand.size, _⟩) ?_
        intro c hc
        exact htiling.start_ne (Carved.smallest_pos hp) (List.mem_append_left _ hc)
      have hlength : ∀ i, ((s.release policy chunk).freeList i).length =
          (fileOn policy hand.lists hand.start hand.size i).length := by
        intro i
        rw [hrep'.listed.length, ← hlists']
        rfl
      have hlength₀ : ∀ i, (s.freeList i).length = (hand.lists i).length := by
        intro i
        rw [hrep.listed.length, ← hlists]
        rfl
      have hbounded : ∀ i, (hand.lists i).length ≤ policy.freeListSize := by
        intro i
        rw [← hlists]
        exact hrep.listed.bounded i
      simp only [outline, Outline.release, hmode, hsize, hlength, hlength₀]
      exact length_fileOn hbounded _ _

/-- A chunk of the outline is live exactly if the segment has a live chunk. -/
theorem Reachable.isInUse_outline (hp : policy.Sound) (h : Reachable policy s) :
    (s.outline policy).isInUse = decide (0 < s.liveCount) := by
  rw [h.liveCount_eq hp, liveChunks, ← List.countP_eq_length_filter]
  unfold Outline.isInUse outline
  rw [Bool.eq_iff_iff, List.any_eq_true, decide_eq_true_iff, List.countP_pos_iff]

/-- **Segments that are alike** but for the order and the choice of the chunks on their lists: the
cursors, the marks and the counters agree, and so do the places, the sizes and the contents of all
chunks. -/
structure Alike (s s' : Segment) : Prop where
  size_eq : s'.size = s.size
  bump_eq : s'.bump = s.bump
  mark_eq : ∀ k, s'.starts.get k = s.starts.get k
  chunks_eq : s'.chunks = s.chunks
  liveCount_eq : s'.liveCount = s.liveCount

/-- Reachable segments with the same chunks are alike. -/
theorem Reachable.alike (hp : policy.Sound) (h : Reachable policy s) (h' : Reachable policy s')
    (heq : s'.chunks = s.chunks) : s.Alike s' := by
  obtain ⟨hrep, -⟩ := h.represents_view hp
  obtain ⟨hrep', -⟩ := h'.represents_view hp
  refine ⟨?_, ?_, ?_, heq, ?_⟩
  · rw [hrep.carved.size_eq, hrep'.carved.size_eq]
  · rw [← hrep.stop_eq_bump, ← hrep'.stop_eq_bump]
    unfold View.stop view
    rw [heq]
  · intro k
    rw [Bool.eq_iff_iff, hrep.carved.marks, hrep'.carved.marks]
    unfold view
    rw [heq]
  · rw [hrep.carved.liveCount_eq, hrep'.carved.liveCount_eq]
    unfold view
    rw [heq]

/-- Segments with the same outline have lists of the same lengths, where speed is favoured or the
lists are long enough. -/
theorem Reachable.length_eq (hp : policy.Sound) (h : Reachable policy s) (h' : Reachable policy s')
    (heq : s'.outline policy = s.outline policy)
    (hlong : policy.mode = .favorSpeed ∨ policy.LongLists) (i : Nat) :
    (s'.freeList i).length = (s.freeList i).length := by
  rcases hlong with hmode | hlong
  · have hlengths := congrFun (congrArg Outline.lengths heq) i
    simpa only [outline, hmode] using hlengths
  · have hchunks : s'.chunks = s.chunks := congrArg Outline.chunks heq
    obtain ⟨hrep, -⟩ := h.represents_view hp
    obtain ⟨hrep', -⟩ := h'.represents_view hp
    rw [hrep.length_eq_countP hp (h.tracked hp hlong),
      hrep'.length_eq_countP hp (h'.tracked hp hlong)]
    unfold view
    rw [hchunks]

end Segment

end ObjectPile
