/-
# Figures

What the figures of a pile say at all times: they are those of the objects and segments that are
there, they keep within the limits, and no sum or product of them is cut off, so that nothing is
ever lost in adding to them or taking from them.

* `Pile.Figures` : the figures of a pile and its table of slots are in order.
* `Sound.figures` : they are for every pile that satisfies the invariant.
* `Session.figures_of_run` : they are after every run.
-/
import ObjectPile.Proofs.Pointers

namespace ObjectPile

namespace Pile

/-- **The figures of a pile and its table of slots are in order.** -/
structure Figures (p : Pile) : Prop where
  objectCount_eq : p.objectCount = total (fun s => s.liveChunks.length) p.slots
  utilizedBytes_eq : p.utilizedBytes =
    total (fun s => (s.liveChunks.map Chunk.payloadLength).sum) p.slots
  segmentCount_eq : p.segmentCount = p.slots.countP Option.isSome
  /-- No segment is kept without objects. -/
  liveChunks_ne_nil : ∀ i s, p.slot? i = some s → s.liveChunks ≠ []
  back?_ne : p.slots.back? ≠ some none
  segmentCount_le : p.segmentCount ≤ p.settings.maxSegmentLimit
  allocatedBytes_eq : p.allocatedBytes = p.segmentCount * p.settings.segmentSize
  allocatedBytes_le : p.allocatedBytes ≤ p.settings.maxMemoryLimit
  utilizedBytes_le : p.utilizedBytes ≤ p.allocatedBytes
  allocatedBytes_eq_add : p.allocatedBytes = p.utilizedBytes + p.overheadBytes
  /-- What deleting takes from the figures is there. -/
  of_found : ∀ q s chunk, p.view q Prod.mk = .ok (some (s, chunk)) →
    0 < p.objectCount ∧ chunk.length ≤ p.utilizedBytes ∧ 0 < p.segmentCount ∧ 0 < s.liveCount
  objectCount_eq_zero_iff : p.objectCount = 0 ↔ p.segmentCount = 0
  segmentCount_eq_zero_iff : p.segmentCount = 0 ↔ p.allocatedBytes = 0

variable {p : Pile}

/-- What a view finds is a live chunk of a segment of the pile. -/
theorem exists_of_view_eq_ok {α : Type} {q : Pointer} {f : Segment → LiveChunk → α} {a : α}
    (h : p.view q f = .ok (some a)) : ∃ s chunk, p.slot? q.segment = some s ∧
      s.resolve? q.offset q.generation = some chunk ∧ f s chunk = a := by
  unfold view at h
  split at h
  · split at h <;> simp at h
  · split at h
    · simp at h
    · split at h
      · simp at h
      · rename_i s hslot
        split at h
        · simp at h
        · rename_i chunk hresolve
          exact ⟨s, chunk, hslot, hresolve, Option.some.inj (Except.ok.inj h)⟩

namespace Sound

/-- Segments have live chunks, and a pile with segments has objects. -/
theorem segmentCount_le_objectCount (h : p.Sound) : p.segmentCount ≤ p.objectCount := by
  rw [h.segmentCount_eq, h.objectCount_eq, occupied_eq_total]
  exact total_mono h.liveCount_pos

/-- A pile without segments has no objects. -/
theorem objectCount_eq_zero (h : p.Sound) (hzero : p.segmentCount = 0) : p.objectCount = 0 := by
  rw [h.objectCount_eq]
  have hnone : ∀ (i : Nat) (s : Segment), p.slots[i]?.join = some s → s.liveCount = 0 := by
    intro i s hs
    have hone := figure_le_total (fun _ => 1) hs
    rw [← occupied_eq_total, ← h.segmentCount_eq] at hone
    omega
  have hle : total Segment.liveCount p.slots ≤ occupied p.slots * 0 :=
    total_le_mul Segment.liveCount fun i s hs => Nat.le_of_eq (hnone i s hs)
  omega

/-- The payloads of a pile fit into its segments. -/
theorem utilizedBytes_le (h : p.Sound) : p.utilizedBytes ≤ p.allocatedBytes := by
  rw [h.allocatedBytes_eq, h.utilizedBytes_eq, h.segmentCount_eq]
  refine total_le_mul Segment.storedBytes ?_
  intro i s hs
  have hle := (h.reachable i s hs).storedBytes_le h.policy
  rw [h.policy_eq] at hle
  exact hle

/-- What deleting takes from the figures is there. -/
theorem figures_of_found (h : p.Sound) {q : Pointer} {s : Segment} {chunk : LiveChunk}
    (hslot : p.slot? q.segment = some s)
    (hresolve : s.resolve? q.offset q.generation = some chunk) :
    0 < p.objectCount ∧ chunk.length ≤ p.utilizedBytes ∧ 0 < p.segmentCount ∧ 0 < s.liveCount := by
  have hpos := h.liveCount_pos _ s hslot
  have hreleased := (h.reachable _ s hslot).released h.policy hresolve
  have hbytes := hreleased.storedBytes_eq
  have hobjects := figure_le_total Segment.liveCount hslot
  have hstored := figure_le_total Segment.storedBytes hslot
  have hsegments := figure_le_total (fun _ => 1) hslot
  rw [← h.objectCount_eq] at hobjects
  rw [← h.utilizedBytes_eq] at hstored
  rw [← occupied_eq_total, ← h.segmentCount_eq] at hsegments
  omega

/-- **A pile that satisfies the invariant has its figures in order.** -/
theorem figures (h : p.Sound) : p.Figures := by
  have hobjects := h.segmentCount_le_objectCount
  have hutilized := h.utilizedBytes_le
  have hliveCount : ∀ (i : Nat) (s : Segment), p.slots[i]?.join = some s →
      s.liveCount = s.liveChunks.length := fun i s hs => (h.reachable i s hs).liveCount_eq h.policy
  refine ⟨?_, h.utilizedBytes_eq, h.segmentCount_eq, ?_, h.trimmed, h.segmentCount_le,
    h.allocatedBytes_eq, ?_, hutilized, ?_, ?_, ?_, ?_⟩
  · rw [h.objectCount_eq]
    exact total_congr hliveCount
  · intro i s hs hnil
    have hpos := h.liveCount_pos i s hs
    rw [hliveCount i s hs, hnil] at hpos
    exact Nat.lt_irrefl _ hpos
  · rw [h.allocatedBytes_eq]
    exact h.allocated_le
  · unfold overheadBytes
    omega
  · intro q s chunk hview
    obtain ⟨t, found, hslot, hresolve, heq⟩ := exists_of_view_eq_ok hview
    obtain ⟨rfl, rfl⟩ := Prod.mk.inj heq
    exact h.figures_of_found hslot hresolve
  · constructor
    · intro hzero
      omega
    · exact h.objectCount_eq_zero
  · -- segments have bytes
    have hmin := h.accepted.sound.minSegmentSize_le
    rw [h.allocatedBytes_eq, Nat.mul_eq_zero]
    unfold minSegmentSize at hmin
    omega

end Sound

end Pile

namespace Session

/-- **Figures along a run.** After every run the figures of a pile are those of what it holds and
within its limits. -/
theorem figures_of_run {p : Pile} (hnew : p.IsNew) {ops : List Operation}
    (htyped : ∀ op ∈ ops, op.IsTyped) (hputs : ((new p).run ops).issued.length < maxWord) :
    ((new p).run ops).pile.Figures := by
  have hsound := (sound_new hnew).run htyped hputs
  exact hsound.pile.figures

theorem figures_of_recycling : recycled.pile.Figures ∧ recycled.pile.objectCount = 2 ∧
    recycled.pile.utilizedBytes = 18 ∧ recycled.pile.segmentCount = 1 := by
  have htyped : ∀ op ∈ recycling, op.IsTyped := by decide
  have hputs : recycled.issued.length < maxWord := by decide +kernel
  have hfigures : recycled.pile.Figures :=
    figures_of_run (Pile.isNew_create 1 none) htyped hputs
  exact ⟨hfigures, by decide +kernel⟩

end Session

end ObjectPile
