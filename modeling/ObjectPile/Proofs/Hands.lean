/-
# Chunks in hand

Releasing works on one chunk and its two neighbours. A *hand* is the view of a segment opened at
that chunk: the chunks before it, nearest first, and the chunks after it. On hands the merging of
neighbours is a matter of looking at the first chunk on either side; this module shows that it is
what `Merge` does with the bytes, and from that what `Segment.release` does to a view.

* `Hand.withNext`, `Hand.withPrevious`, `Hand.finish` : the steps of a release on hands.
* `Merge.Holds` : the merge under way in a segment is the one of the hand.
* `Merge.Holds.withNext_cases`, `Merge.Holds.withPrevious_cases` : what merging does to both.
* `Represents.release` : releasing a live chunk is `Hand.release`.
* `Hand.live_release` : no other live chunk is touched.
-/
import ObjectPile.Proofs.Views

namespace ObjectPile

/-! ## Hands -/

/-- A chunk in the hand of an operation, and the view around it. -/
structure Hand where
  /-- The chunks before it, the nearest first. -/
  before : List Chunk
  start : Nat
  size : Nat
  after : List Chunk
  lists : Nat → List Nat

namespace Hand

/-- The view once the chunk holds something. -/
def put (h : Hand) (content : Content) : View :=
  ⟨h.before.reverse ++ ⟨h.start, h.size, content⟩ :: h.after, h.lists⟩

/-- The view while the chunk is in hand. -/
def view (h : Hand) : View := h.put .taken

/-- The live chunks around the one in hand. -/
def live (h : Hand) : List Chunk := (h.before.reverse ++ h.after).filter Chunk.isLive

/-- No other chunk is in hand. -/
def Lone (h : Hand) : Prop := ∀ c ∈ h.before.reverse ++ h.after, c.content ≠ .taken

/-- Merges with the chunk after, if that is free. -/
def withNext (h : Hand) : Hand :=
  match h.after with
  | ⟨next, size, .free⟩ :: after =>
    { h with size := h.size + size, after := after, lists := Segment.unlinkFrom h.lists next }
  | _ => h

/-- Merges with the chunk before, if that is free. -/
def withPrevious (h : Hand) : Hand :=
  match h.before with
  | ⟨previous, size, .free⟩ :: before =>
    { h with
      before := before
      start := previous
      size := h.size + size
      lists := Segment.unlinkFrom h.lists previous }
  | _ => h

/-- Makes a free chunk of the one in hand and puts it on its list. -/
def addFree (policy : AllocationPolicy) (h : Hand) : View :=
  { h.put .free with lists := Segment.fileOn policy h.lists h.start h.size }

/-- Dissolves the chunk in hand if it is the last one, else makes it free. -/
def finish (policy : AllocationPolicy) (h : Hand) : View :=
  if h.after = [] then ⟨h.before.reverse, h.lists⟩ else h.addFree policy

/-- What releasing makes of the chunk in hand. -/
def release (policy : AllocationPolicy) (h : Hand) : View :=
  match policy.mode with
  | .favorSpeed => h.addFree policy
  | .reuseSpace => h.withNext.withPrevious.finish policy

/-! ## The other chunks -/

theorem live_put_of_not_live {content : Content} (h : Hand)
    (hlive : (⟨h.start, h.size, content⟩ : Chunk).isLive = false) :
    (h.put content).live = h.live := by
  simp [View.live, put, live, List.filter_append, hlive]

theorem settled_put {content : Content} {h : Hand} (hlone : h.Lone) (hne : content ≠ .taken) :
    (h.put content).Settled := by
  intro c hc
  rcases List.mem_append.1 hc with hc | hc
  · exact hlone c (List.mem_append_left _ hc)
  · rcases List.mem_cons.1 hc with rfl | hc
    · exact hne
    · exact hlone c (List.mem_append_right _ hc)

/-- What the chunk after can be like: merging with it happens or does not. -/
theorem withNext_cases (h : Hand) :
    (∃ d after, h.after = d :: after ∧ d.content = .free ∧ h.withNext =
      { h with
        size := h.size + d.size
        after := after
        lists := Segment.unlinkFrom h.lists d.start }) ∨
    ((∀ d ∈ h.after.head?, d.content ≠ .free) ∧ h.withNext = h) := by
  unfold withNext
  split
  · rename_i next size after heq
    exact .inl ⟨_, after, heq, rfl, rfl⟩
  · rename_i hne
    refine .inr ⟨?_, rfl⟩
    intro d hd hfree
    obtain ⟨after, hafter⟩ := List.head?_eq_some_iff.1 hd
    obtain ⟨start, size, content⟩ := d
    exact hne start size after (by rw [hafter, ← hfree])

/-- What the chunk before can be like: merging with it happens or does not. -/
theorem withPrevious_cases (h : Hand) :
    (∃ d before, h.before = d :: before ∧ d.content = .free ∧ h.withPrevious =
      { h with
        before := before
        start := d.start
        size := h.size + d.size
        lists := Segment.unlinkFrom h.lists d.start }) ∨
    ((∀ d ∈ h.before.head?, d.content ≠ .free) ∧ h.withPrevious = h) := by
  unfold withPrevious
  split
  · rename_i previous size before heq
    exact .inl ⟨_, before, heq, rfl, rfl⟩
  · rename_i hne
    refine .inr ⟨?_, rfl⟩
    intro d hd hfree
    obtain ⟨before, hbefore⟩ := List.head?_eq_some_iff.1 hd
    obtain ⟨start, size, content⟩ := d
    exact hne start size before (by rw [hbefore, ← hfree])

@[simp] theorem live_withNext (h : Hand) : h.withNext.live = h.live := by
  rcases h.withNext_cases with ⟨d, after, hafter, hfree, heq⟩ | ⟨-, heq⟩
  · rw [heq]
    simp [live, hafter, List.filter_append, Chunk.isLive_eq_false_of_free hfree]
  · rw [heq]

@[simp] theorem live_withPrevious (h : Hand) : h.withPrevious.live = h.live := by
  rcases h.withPrevious_cases with ⟨d, before, hbefore, hfree, heq⟩ | ⟨-, heq⟩
  · rw [heq]
    simp [live, hbefore, List.filter_append, Chunk.isLive_eq_false_of_free hfree]
  · rw [heq]

theorem Lone.withNext {h : Hand} (hlone : h.Lone) : h.withNext.Lone := by
  rcases h.withNext_cases with ⟨d, after, hafter, -, heq⟩ | ⟨-, heq⟩
  · rw [heq]
    intro c hc
    refine hlone c ?_
    rw [hafter]
    exact Segment.Represents.mem_of_mem_append hc
  · rwa [heq]

theorem Lone.withPrevious {h : Hand} (hlone : h.Lone) : h.withPrevious.Lone := by
  rcases h.withPrevious_cases with ⟨d, before, hbefore, -, heq⟩ | ⟨-, heq⟩
  · rw [heq]
    intro c hc
    refine hlone c ?_
    rw [hbefore, List.reverse_cons, List.append_assoc]
    exact Segment.Represents.mem_of_mem_append hc
  · rwa [heq]

@[simp] theorem live_addFree (policy : AllocationPolicy) (h : Hand) :
    (h.addFree policy).live = h.live := h.live_put_of_not_live rfl

@[simp] theorem live_finish (policy : AllocationPolicy) (h : Hand) :
    (h.finish policy).live = h.live := by
  unfold finish
  split
  · rename_i hafter
    simp [View.live, live, hafter]
  · exact h.live_addFree policy

/-- **Releasing a chunk touches no other live chunk.** -/
theorem live_release (policy : AllocationPolicy) (h : Hand) :
    (h.release policy).live = h.live := by
  unfold release
  split <;> simp

theorem settled_release (policy : AllocationPolicy) {h : Hand} (hlone : h.Lone) :
    (h.release policy).Settled := by
  unfold release
  split
  · exact settled_put hlone (by simp)
  · unfold finish
    have hlone' := hlone.withNext.withPrevious
    split
    · exact fun c hc => hlone' c (List.mem_append_left _ hc)
    · exact settled_put hlone' (by simp)

end Hand

namespace Segment

variable {policy : AllocationPolicy} {s : Segment} {cs pre post : List Chunk}
  {lists : Nat → List Nat} {c d : Chunk}

/-! ## What headers say -/

theorem Represents.isFree_of_free (h : Represents policy s ⟨cs, lists⟩) (hc : c ∈ cs)
    (hfree : c.content = .free) : s.isFree c.start = true := by
  have hshows := h.carved.shows c hc
  unfold Shows at hshows
  rw [hfree] at hshows
  simpa [isFree] using hshows.2

/-- Unless it is in hand, a chunk that is not free says that it is not. -/
theorem Represents.isFree_of_not_free (h : Represents policy s ⟨cs, lists⟩) (hc : c ∈ cs)
    (htaken : c.content ≠ .taken) (hfree : c.content ≠ .free) : s.isFree c.start = false := by
  have hshows := h.carved.shows c hc
  unfold Shows at hshows
  cases hcontent : c.content with
  | live g v payload =>
    rw [hcontent] at hshows
    obtain ⟨-, hgen, hne, -⟩ := hshows
    simpa [isFree, hgen] using hne
  | free => exact absurd hcontent hfree
  | taken => exact absurd hcontent htaken

/-- Unless it is in hand, a chunk that says that it is free is free. -/
theorem Represents.free_of_isFree (h : Represents policy s ⟨cs, lists⟩) (hc : c ∈ cs)
    (htaken : c.content ≠ .taken) (hisFree : s.isFree c.start = true) : c.content = .free := by
  by_contra hne
  rw [h.isFree_of_not_free hc htaken hne] at hisFree
  exact Bool.false_ne_true hisFree

/-- Unless it is in hand, a chunk carries its size. -/
theorem Represents.chunkSize_eq (h : Represents policy s ⟨cs, lists⟩) (hc : c ∈ cs)
    (htaken : c.content ≠ .taken) : s.chunkSize c.start = c.size := by
  have hshows := h.carved.shows c hc
  unfold Shows at hshows
  cases hcontent : c.content with
  | live g v payload =>
    rw [hcontent] at hshows
    exact hshows.1
  | free =>
    rw [hcontent] at hshows
    exact hshows.1
  | taken => exact absurd hcontent htaken

/-- The chunk after another one starts where that ends, and the last one ends at the cursor. -/
theorem Represents.stop_eq (h : Represents policy s ⟨pre ++ d :: post, lists⟩) :
    d.stop = (post.head?.map Chunk.start).getD s.bump := by
  obtain ⟨m, -, -, hpost⟩ := (tiles_append ..).1 h.carved.tiling.tiles
  cases post with
  | nil => exact hpost
  | cons c post => exact hpost.1.symm

/-! ## Merging -/

/-- The bytes that are becoming free in a segment are the chunk in hand. -/
structure Merge.Holds (policy : AllocationPolicy) (m : Merge) (h : Hand) : Prop where
  start_eq : m.start = h.start
  size_eq : m.size = h.size
  represents : Represents policy m.segment h.view
  lone : h.Lone

namespace Merge.Holds

variable {m : Merge} {h : Hand}

/-- The row of chunks with the one in hand. -/
theorem row (hm : m.Holds policy h) : Represents policy m.segment
    ⟨h.before.reverse ++ ⟨h.start, h.size, .taken⟩ :: h.after, h.lists⟩ := hm.represents

/-- The bytes end where the chunk after starts, or else at the cursor. -/
theorem add_size_eq (hm : m.Holds policy h) :
    m.start + m.size = (h.after.head?.map Chunk.start).getD m.segment.bump := by
  rw [hm.start_eq, hm.size_eq]
  exact hm.row.stop_eq

/-- The last mark before the bytes is that of the nearest chunk before them. -/
theorem startBefore?_eq (hp : policy.Sound) (hm : m.Holds policy h) :
    m.segment.startBefore? m.start = h.before.head?.map Chunk.start := by
  rw [hm.start_eq, ← List.getLast?_reverse]
  exact hm.row.carved.startBefore?_eq hp

/-- Merging with the chunk after happens in the segment if it does in the hand. -/
theorem withNext_cases (hp : policy.Sound) (hm : m.Holds policy h) :
    (∃ d after, h.after = d :: after ∧ d.content = .free ∧
      h.withNext =
        { h with
          size := h.size + d.size
          after := after
          lists := unlinkFrom h.lists d.start } ∧
      m.withNext = ⟨(m.segment.unlink d.start).mark d.start false, m.start, m.size + d.size⟩) ∨
    (h.withNext = h ∧ m.withNext = m) := by
  have hnext := hm.add_size_eq
  rcases h.withNext_cases with ⟨d, after, hafter, hfree, heq⟩ | ⟨hnone, heq⟩
  · -- the chunk after is where the one in hand stops, and its header says that it is free
    rw [hafter] at hnext
    have hstart : m.start + m.size = d.start := hnext
    have hd : d ∈ h.before.reverse ++ ⟨h.start, h.size, .taken⟩ :: h.after := by simp [hafter]
    have hsize := hm.row.carved.size_ge hp hd
    have hstop := hm.row.carved.tiling.stop_le hd
    unfold Chunk.stop at hstop
    refine .inl ⟨d, after, hafter, hfree, heq, ?_⟩
    unfold Merge.withNext
    simp only [hstart]
    rw [if_pos ⟨by omega, hm.row.isFree_of_free hd hfree⟩,
      hm.row.chunkSize_eq hd (by simp [hfree])]
  · refine .inr ⟨heq, if_neg ?_⟩
    -- before the cursor there is a chunk after, and its header does not say that it is free
    rintro ⟨hlt, hisFree⟩
    cases hafter : h.after with
    | nil =>
      rw [hafter] at hnext
      exact absurd hnext (Nat.ne_of_lt hlt)
    | cons d after =>
      rw [hafter] at hnext hnone
      have hstart : m.start + m.size = d.start := hnext
      rw [hstart] at hisFree
      exact hnone d rfl
        (hm.row.free_of_isFree (by simp [hafter]) (hm.lone d (by simp [hafter])) hisFree)

/-- Merging with the chunk before happens in the segment if it does in the hand. -/
theorem withPrevious_cases (hp : policy.Sound) (hm : m.Holds policy h) :
    (∃ d before, h.before = d :: before ∧ d.content = .free ∧
      h.withPrevious =
        { h with
          before := before
          start := d.start
          size := h.size + d.size
          lists := unlinkFrom h.lists d.start } ∧
      m.withPrevious =
        ⟨(m.segment.unlink d.start).mark m.start false, d.start, m.size + d.size⟩) ∨
    (h.withPrevious = h ∧ m.withPrevious = m) := by
  unfold Merge.withPrevious
  rw [hm.startBefore?_eq hp]
  rcases h.withPrevious_cases with ⟨d, before, hbefore, hfree, heq⟩ | ⟨hnone, heq⟩
  · have hd : d ∈ h.before.reverse ++ ⟨h.start, h.size, .taken⟩ :: h.after := by simp [hbefore]
    refine .inl ⟨d, before, hbefore, hfree, heq, ?_⟩
    rw [hbefore]
    simp only [List.head?_cons, Option.map_some]
    rw [if_pos (hm.row.isFree_of_free hd hfree), hm.row.chunkSize_eq hd (by simp [hfree])]
  · refine .inr ⟨heq, ?_⟩
    cases hbefore : h.before with
    | nil => rfl
    | cons d before =>
      rw [hbefore] at hnone
      refine if_neg ?_
      intro hisFree
      exact hnone d rfl
        (hm.row.free_of_isFree (by simp [hbefore]) (hm.lone d (by simp [hbefore])) hisFree)

/-- Merging with the chunk after in the segment is merging with it in the hand. -/
theorem withNext (hp : policy.Sound) (hm : m.Holds policy h) :
    m.withNext.Holds policy h.withNext := by
  rcases hm.withNext_cases hp with ⟨d, after, hafter, hfree, heq, hmerge⟩ | ⟨heq, hmerge⟩
  · have hrep := hm.row
    rw [hafter, List.append_cons] at hrep
    have htaken := hrep.takeFree hp hfree
    rw [← List.append_cons] at htaken
    have hlone := hm.lone.withNext
    rw [heq] at hlone
    rw [heq, hmerge]
    exact ⟨hm.start_eq, congrArg (· + d.size) hm.size_eq, htaken.merge hp rfl rfl, hlone⟩
  · rw [heq, hmerge]
    exact hm

/-- Merging with the chunk before in the segment is merging with it in the hand. -/
theorem withPrevious (hp : policy.Sound) (hm : m.Holds policy h) :
    m.withPrevious.Holds policy h.withPrevious := by
  rcases hm.withPrevious_cases hp with ⟨d, before, hbefore, hfree, heq, hmerge⟩ | ⟨heq, hmerge⟩
  · have hrep := hm.row
    rw [hbefore, List.reverse_cons, List.append_assoc] at hrep
    have hmerged := (hrep.takeFree hp hfree).merge hp rfl rfl
    have hlone := hm.lone.withPrevious
    rw [heq] at hlone
    rw [heq, hmerge, hm.start_eq]
    refine ⟨rfl, congrArg (· + d.size) hm.size_eq, ?_, hlone⟩
    simpa [Hand.view, Hand.put, Nat.add_comm] using hmerged
  · rw [heq, hmerge]
    exact hm

/-- Returning the bytes to the segment is dissolving or freeing the chunk in hand. -/
theorem finish (hp : policy.Sound) (hm : m.Holds policy h) :
    Represents policy (m.finish policy) (h.finish policy) := by
  have hrep := hm.row
  have hnext := hm.add_size_eq
  rw [hm.start_eq, hm.size_eq] at hnext
  unfold Merge.finish Hand.finish
  rw [hm.start_eq, hm.size_eq]
  cases hafter : h.after with
  | nil =>
    rw [hafter] at hrep hnext
    have hbump : h.start + h.size = m.segment.bump := hnext
    rw [if_pos rfl, if_pos hbump]
    exact hrep.retract hp rfl
  | cons d after =>
    -- there is a chunk between the one in hand and the cursor
    have hstart : h.start + h.size = d.start := by
      rw [hafter] at hnext
      exact hnext
    have hd : d ∈ h.before.reverse ++ ⟨h.start, h.size, .taken⟩ :: h.after := by simp [hafter]
    have hsize := hrep.carved.size_ge hp hd
    have hstop := hrep.carved.tiling.stop_le hd
    unfold Chunk.stop at hstop
    rw [if_neg (List.cons_ne_nil d after), if_neg (by omega)]
    have hfreed := hrep.addFree hp rfl
    simpa only [Hand.addFree, Hand.put] using hfreed

end Merge.Holds

/-- **Releasing a live chunk of a segment is releasing it on hands.** -/
theorem Represents.release (hp : policy.Sound)
    (h : Represents policy s ⟨pre ++ d :: post, lists⟩) (hd : d.isLive = true)
    (hsettled : View.Settled ⟨pre ++ d :: post, lists⟩) {chunk : LiveChunk}
    (hoffset : chunk.offset = d.start) (hsize : chunk.size = d.size) :
    Represents policy (s.release policy chunk)
      (Hand.release policy ⟨pre.reverse, d.start, d.size, post, lists⟩) := by
  have htaken := h.takeLive hp hd
  have hlone : Hand.Lone ⟨pre.reverse, d.start, d.size, post, lists⟩ := by
    intro c hc
    rw [List.reverse_reverse] at hc
    exact hsettled c (mem_of_mem_append hc)
  unfold Segment.release Hand.release
  simp only [hoffset, hsize]
  cases policy.mode with
  | favorSpeed =>
    have hfreed := htaken.addFree hp rfl
    simpa [Hand.addFree, Hand.put] using hfreed
  | reuseSpace =>
    have hholds : Merge.Holds policy ⟨{ s with liveCount := s.liveCount - 1 }, d.start, d.size⟩
        ⟨pre.reverse, d.start, d.size, post, lists⟩ :=
      ⟨rfl, rfl, by simpa [Hand.view, Hand.put] using htaken, hlone⟩
    exact (hholds.withNext hp).withPrevious hp |>.finish hp

end Segment

end ObjectPile
