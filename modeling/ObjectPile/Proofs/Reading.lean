/-
# Reading segments

The view of a segment can be read off the segment itself. The marks before the cursor say where its
chunks start and the headers there what they are; the lists are found by following the links from
their heads as many steps as the counters say. A segment that represents a settled view represents
the one that is read.

* `Segment.offsets`, `Segment.chunks`, `Segment.listed`, `Segment.view` : what is read.
* `Represents.view_eq` : no other settled view is represented.
* `Reachable.represents_view` : reachable segments represent what is read off them.
* `Reachable.resolve?_eq_some_iff` : what pointers find are the live chunks among it.
-/
import ObjectPile.Proofs.Reachable

namespace ObjectPile.Segment

/-! ## What is read -/

/-- The places before the cursor that carry a mark. -/
def offsets (s : Segment) : List Nat :=
  ((List.range (s.bump / 16)).filter s.starts.get).map (16 * ·)

/-- What the chunk at an offset holds, by its header. -/
def contentAt (s : Segment) (offset : Nat) : Content :=
  if s.isFree offset then .free
  else .live (s.generation offset) (s.chunkVersion offset)
    (s.memory.read (offset + headerSize) (s.word offset lengthField))

/-- The chunk at an offset, by its header. -/
def chunkAt (s : Segment) (offset : Nat) : Chunk :=
  ⟨offset, s.chunkSize offset, s.contentAt offset⟩

/-- The chunks of a segment, by its marks and their headers. -/
def chunks (s : Segment) : List Chunk := s.offsets.map s.chunkAt

/-- The offsets met on a walk along the links to the next chunk, of `n` steps at most. -/
def walk (s : Segment) : Nat → Option Nat → List Nat
  | 0, _ => []
  | _ + 1, none => []
  | n + 1, some offset => offset :: s.walk n (s.next offset)

/-- The chunks on a list, as many as the counter of the list says. -/
def listed (s : Segment) (list : Nat) : List Nat :=
  s.walk (s.freeList list).length (s.freeList list).head

/-- What is read off a segment. -/
def view (s : Segment) : View := ⟨s.chunks, s.listed⟩

theorem mem_offsets_iff (s : Segment) (offset : Nat) :
    offset ∈ s.offsets ↔ ∃ k, k < s.bump / 16 ∧ s.starts.get k = true ∧ 16 * k = offset := by
  simp [offsets, and_assoc]

/-- The places with marks ascend. -/
theorem pairwise_offsets (s : Segment) : s.offsets.Pairwise (· < ·) := by
  unfold offsets
  rw [List.pairwise_map]
  refine List.Pairwise.filter _ (List.pairwise_lt_range.imp ?_)
  intro hlt
  omega

/-- A walk along a list meets its chunks and ends behind the last one. -/
theorem Linked.walk_eq {s : Segment} {p : Option Nat} {os : List Nat} (h : s.Linked p os none)
    {n : Nat} (hn : os.length ≤ n) : s.walk n os.head? = os := by
  induction os generalizing n p with
  | nil => cases n <;> rfl
  | cons o os ih =>
    obtain ⟨-, hnext, hrest⟩ := h
    rw [Option.or_none] at hnext
    cases n with
    | zero => simp at hn
    | succ n =>
      rw [List.head?_cons, walk, hnext, ih hrest (Nat.le_of_succ_le_succ hn)]

/-! ## Views that are represented -/

namespace Represents

variable {policy : AllocationPolicy} {s : Segment} {v : View}

/-- The places with marks are the starts of the chunks. -/
theorem offsets_eq (hp : policy.Sound) (h : Represents policy s v) :
    s.offsets = v.chunks.map Chunk.start := by
  -- both ascend, so it is enough that they have the same members
  have hascending := h.carved.tiling.pairwise_start (Carved.smallest_pos hp)
  refine List.Pairwise.eq_of_mem_iff s.pairwise_offsets hascending ?_
  intro o
  rw [mem_offsets_iff]
  constructor
  · rintro ⟨k, -, hmark, rfl⟩
    exact (h.carved.marks k).1 hmark
  · intro ho
    obtain ⟨c, hc, rfl⟩ := List.mem_map.1 ho
    have hmod := h.carved.tiling.start_mod c hc
    have hbump := h.carved.tiling.bump_mod
    have hstop := h.carved.tiling.stop_le hc
    have hsize := h.carved.size_ge hp hc
    unfold Chunk.stop at hstop
    have hstart : 16 * (c.start / 16) = c.start := by omega
    refine ⟨c.start / 16, by omega, (h.carved.marks _).2 ?_, hstart⟩
    rw [hstart]
    exact ho

/-- The header of a chunk that is not in hand tells what it holds. -/
theorem chunkAt_eq (h : Represents policy s v) {c : Chunk} (hc : c ∈ v.chunks)
    (htaken : c.content ≠ .taken) : s.chunkAt c.start = c := by
  have hsize := h.chunkSize_eq hc htaken
  have hshows := h.carved.shows c hc
  unfold Shows at hshows
  unfold chunkAt contentAt
  rw [hsize]
  obtain ⟨start, size, content⟩ := c
  cases content with
  | live g ver payload =>
    obtain ⟨-, hgen, hne, hversion, hlength, -, hread⟩ := hshows
    rw [h.isFree_of_not_free hc htaken (by simp), if_neg Bool.false_ne_true, hgen, hversion,
      hlength, hread]
  | free => rw [h.isFree_of_free hc rfl, if_pos rfl]
  | taken => exact absurd rfl htaken

/-- The lists are what following the links finds. -/
theorem listed_eq (h : Represents policy s v) : s.listed = v.lists := by
  funext i
  unfold Segment.listed
  rw [h.listed.head, h.listed.length]
  exact (h.listed.linked i).walk_eq (Nat.le_refl _)

/-- **The settled view that a segment represents is the one that is read off it.** -/
theorem view_eq (hp : policy.Sound) (h : Represents policy s v) (hsettled : v.Settled) :
    s.view = v := by
  have hchunks : s.chunks = v.chunks := by
    unfold chunks
    rw [h.offsets_eq hp, List.map_map]
    refine (List.map_congr_left ?_).trans (List.map_id _)
    intro c hc
    exact h.chunkAt_eq hc (hsettled c hc)
  unfold view
  rw [hchunks, h.listed_eq]

end Represents

/-- **A reachable segment represents the view that is read off it.** -/
theorem Reachable.represents_view {policy : AllocationPolicy} {s : Segment} (hp : policy.Sound)
    (h : Reachable policy s) : Represents policy s s.view ∧ s.view.Settled := by
  obtain ⟨v, hrep, hsettled⟩ := h.exists_represents hp
  rw [hrep.view_eq hp hsettled]
  exact ⟨hrep, hsettled⟩

/-- **The pointers that name a chunk of a reachable segment** are those of its live chunks. -/
theorem Reachable.resolve?_eq_some_iff {policy : AllocationPolicy} {s : Segment}
    (hp : policy.Sound) (h : Reachable policy s) {offset generation : Nat} {chunk : LiveChunk} :
    s.resolve? offset generation = some chunk ↔
      ∃ c ∈ s.view.live, ∃ version payload, c.start = offset ∧
        c.content = .live generation version payload ∧
          chunk = ⟨offset, c.size, payload.length, version⟩ := by
  obtain ⟨hrep, hsettled⟩ := h.represents_view hp
  rw [hrep.resolve?_eq_some_iff hp hsettled]
  constructor
  · rintro ⟨c, hc, version, payload, hstart, hcontent, hchunk⟩
    have hlive : c.isLive = true := c.isLive_eq_true_iff.2 ⟨_, _, _, hcontent⟩
    exact ⟨c, List.mem_filter.2 ⟨hc, hlive⟩, version, payload, hstart, hcontent, hchunk⟩
  · rintro ⟨c, hc, hfound⟩
    exact ⟨c, List.mem_of_mem_filter hc, hfound⟩

end ObjectPile.Segment
