/-
# Deleting

What deleting an object does to a pile: its segment has one answer less, and is given up if that was
the last one.

* `Pile.DeletedAt` : what deleting an object does to a pile.
* `Counted.deleteIn`, `Counted.vacate` : the figures stay sums over the segments.
* `Sound.delete` : deleting takes a pointer out of the contents.
-/
import ObjectPile.Pile.Delete
import ObjectPile.Proofs.Piles

namespace ObjectPile

/-- A segment without live chunks has no answer. -/
theorem Segment.Reachable.lookup_eq_none {policy : AllocationPolicy} {s : Segment}
    (hp : policy.Sound) (h : Reachable policy s) (hempty : s.liveCount = 0)
    (offset generation : Nat) : s.lookup offset generation = none := by
  obtain ⟨v, hrep, hsettled⟩ := h.exists_represents hp
  rw [hrep.liveCount_eq hp hsettled, hrep.liveChunks_eq hp hsettled,
    List.length_eq_zero_iff] at hempty
  rw [Option.eq_none_iff_forall_ne_some]
  rintro ⟨payload, version⟩ hsome
  obtain ⟨size, hmem⟩ := (hrep.lookup_eq_some_iff hp hsettled).1 hsome
  simp [hempty] at hmem

theorem Segment.Reachable.storedBytes_eq_zero {policy : AllocationPolicy} {s : Segment}
    (hp : policy.Sound) (h : Reachable policy s) (hempty : s.liveCount = 0) :
    s.storedBytes = 0 := by
  rw [h.liveCount_eq hp, List.length_eq_zero_iff] at hempty
  unfold storedBytes
  rw [hempty]
  rfl

namespace Pile

/-- What deleting an object does to a pile. -/
structure DeletedAt (p p' : Pile) (q : Pointer) : Prop where
  sound : p'.Sound
  frame : p.SameFrame p'
  nextGeneration_eq : p'.nextGeneration = p.nextGeneration
  lookup_eq : p'.lookup = Function.update p.lookup q none

/-- One chunk less is one answer less. -/
theorem lookup_of_released {p p' : Pile} {q : Pointer} {length : Nat} {s s' : Segment}
    {slot : Option Segment} (hid : p'.id = p.id) (hpile : q.pile = p.id)
    (hslot : ∀ j, p'.slot? j = if j = q.segment then slot else p.slot? j)
    (hold : p.slot? q.segment = some s)
    (hnew : ∀ o g, (slot.bind fun s => s.lookup o g) = s'.lookup o g)
    (hreleased : s.Released s' q.offset q.generation length) :
    p'.lookup = Function.update p.lookup q none := by
  funext r
  obtain ⟨pile, segment, o, g⟩ := q
  obtain ⟨pile', segment', o', g'⟩ := r
  simp only at hpile hslot hold hreleased
  rw [lookup_of_slot hid hslot, Function.update_apply]
  simp only [Pointer.mk.injEq]
  by_cases hhere : pile' = p.id ∧ segment' = segment
  · obtain ⟨rfl, rfl⟩ := hhere
    rw [if_pos ⟨rfl, rfl⟩, hnew, hreleased.lookup_eq]
    by_cases hog : o' = o ∧ g' = g
    · rw [if_pos hog, if_pos ⟨hpile.symm, rfl, hog.1, hog.2⟩]
    · rw [if_neg hog, if_neg fun hand => hog ⟨hand.2.2.1, hand.2.2.2⟩]
      unfold lookup
      rw [if_pos rfl, hold, Option.bind_some]
  · rw [if_neg hhere, if_neg fun hand => hhere ⟨hand.1.trans hpile, hand.2.1⟩]

namespace Sound

variable {p p' : Pile} {q : Pointer}

/-- Releasing a chunk keeps a pile sound if its figures are brought up to date and the segment is
given up once it is empty. -/
theorem deletedAt (h : p.Sound) (hstate : p.state = .started) (hframe : p.SameFrame p')
    {length : Nat} {s s' : Segment} {slot : Option Segment} (hpile : q.pile = p.id)
    (hslot : ∀ j, p'.slot? j = if j = q.segment then slot else p.slot? j)
    (hold : p.slot? q.segment = some s) (hkept : ∀ t ∈ slot, t = s' ∧ 0 < s'.liveCount)
    (hnew : ∀ o g, (slot.bind fun s => s.lookup o g) = s'.lookup o g)
    (hreachable : Segment.Reachable p.policy s')
    (hreleased : s.Released s' q.offset q.generation length)
    (hgeneration : p'.nextGeneration = p.nextGeneration) (htrimmed : Trimmed p'.slots)
    (hcounted : p'.Counted) (hle : p'.segmentCount ≤ p.segmentCount) : p.DeletedAt p' q := by
  have hlookup := lookup_of_released hframe.id_eq hpile hslot hold hnew hreleased
  have hsegment : ∀ t ∈ slot, Segment.Reachable p.policy t ∧ 0 < t.liveCount := by
    intro t ht
    obtain ⟨rfl, hpos⟩ := hkept t ht
    exact ⟨hreachable, hpos⟩
  have hlt : ∀ r, (p'.lookup r).isSome → r.generation < p'.nextGeneration := by
    intro r hr
    rw [hgeneration]
    rw [hlookup, Function.update_apply] at hr
    split at hr
    · simp at hr
    · exact h.generation_lt r hr
  have hpos : 0 < p'.nextGeneration := by
    rw [hgeneration]
    exact h.generation_pos
  have hlimit := Nat.le_trans hle h.segmentCount_le
  have hmemory := Nat.le_trans (Nat.mul_le_mul_right _ hle) h.allocated_le
  exact ⟨h.of_slot hstate hframe hslot hsegment hlt hpos htrimmed hcounted hlimit hmemory, hframe,
    hgeneration, hlookup⟩

end Sound

/-- The slots after a chunk is released in one of them. -/
theorem slot?_deleteIn {p : Pile} {i : Nat} {s : Segment} (hi : p.slot? i = some s)
    (chunk : LiveChunk) (j : Nat) : (p.deleteIn i chunk).slot? j =
      if j = i then some (s.release p.policy chunk) else p.slot? j := by
  refine (join_modify _ p.slots i j).trans ?_
  have hjoin : p.slots[i]?.join = some s := hi
  rw [hjoin]
  rfl

/-- Releasing a chunk keeps the figures. -/
theorem Counted.deleteIn {p : Pile} (h : p.Counted) {i : Nat} {s : Segment}
    (hi : p.slot? i = some s) {chunk : LiveChunk} {offset generation : Nat}
    (hreleased : s.Released (s.release p.policy chunk) offset generation chunk.length) :
    (p.deleteIn i chunk).Counted := by
  have hjoin : p.slots[i]?.join = some s := hi
  have hobjects := figure_le_total Segment.liveCount hjoin
  have hstored := figure_le_total Segment.storedBytes hjoin
  rw [← h.objectCount_eq] at hobjects
  rw [← h.utilizedBytes_eq] at hstored
  have hsum := fun figure => total_modify figure (fun s => s.release p.policy chunk) hjoin
  refine h.of_slot (some s) (some (s.release p.policy chunk)) hsum rfl ?_ ?_
  · have hcount := hreleased.liveCount_eq
    show p.objectCount - 1 + s.liveCount = p.objectCount + (s.release p.policy chunk).liveCount
    omega
  · have hbytes := hreleased.storedBytes_eq
    show p.utilizedBytes - chunk.length + s.storedBytes =
      p.utilizedBytes + (s.release p.policy chunk).storedBytes
    omega

/-- Giving up an empty segment keeps the figures. -/
theorem Counted.vacate {p : Pile} (h : p.Counted) {i : Nat} {s : Segment} (hi : p.slot? i = some s)
    (hempty : s.liveCount = 0) (hbytes : s.storedBytes = 0) :
    ({ p with slots := vacate p.slots i, segmentCount := p.segmentCount - 1 } : Pile).Counted := by
  have hone := figure_le_total (fun _ => 1) hi
  rw [← occupied_eq_total, ← h.segmentCount_eq] at hone
  refine h.of_slot (some s) none (fun figure => total_vacate figure hi) ?_ ?_ ?_
  · exact Nat.sub_add_cancel hone
  · show p.objectCount + s.liveCount = p.objectCount
    omega
  · show p.utilizedBytes + s.storedBytes = p.utilizedBytes
    omega

/-- A segment without live chunks is given up. -/
theorem releaseIfEmpty_of_eq_zero {p : Pile} {i : Nat} {s : Segment} (hi : p.slot? i = some s)
    (hempty : s.liveCount = 0) : (p.releaseIfEmpty i).1 =
      { p with slots := Pile.vacate p.slots i, segmentCount := p.segmentCount - 1 } := by
  unfold releaseIfEmpty
  rw [hi, Option.any_some, if_pos (by simpa using hempty)]

/-- A segment with live chunks is kept. -/
theorem releaseIfEmpty_of_pos {p : Pile} {i : Nat} {s : Segment} (hi : p.slot? i = some s)
    (hpos : 0 < s.liveCount) : (p.releaseIfEmpty i).1 = p := by
  unfold releaseIfEmpty
  rw [hi, Option.any_some, if_neg (by simp only [beq_iff_eq]; omega)]

/-- **Deleting takes a pointer out of the contents.** -/
theorem Sound.delete {p : Pile} {q : Pointer} (h : p.Sound) (hstate : p.state = .started)
    {payload : List UInt8} {version : CodecVersion}
    (hlookup : p.lookup q = some (payload, version)) :
    (p.delete q).result = .ok () ∧ p.DeletedAt (p.delete q).pile q := by
  obtain ⟨s, chunk, hold, hresolve, -, -, -, hview⟩ :=
    view_of_lookup_eq_some (fun _ chunk => chunk) hstate hlookup
  have hpile : q.pile = p.id := by
    unfold lookup at hlookup
    by_contra hne
    simp [hne] at hlookup
  -- everything that deleting needs to know of the pile with the chunk released
  have hreachable := (h.reachable _ s hold).release hresolve
  have hreleased := (h.reachable _ s hold).released h.policy hresolve
  have hslot := slot?_deleteIn hold chunk
  have hhere := (hslot q.segment).trans (if_pos rfl)
  have hframe : p.SameFrame (p.deleteIn q.segment chunk) := ⟨rfl, rfl, rfl, rfl, rfl⟩
  have hcounted := h.toCounted.deleteIn hold hreleased
  have htrimmed : Trimmed (p.deleteIn q.segment chunk).slots := h.trimmed.modify _ q.segment
  have hgeneration : (p.deleteIn q.segment chunk).nextGeneration = p.nextGeneration := rfl
  have hcount : (p.deleteIn q.segment chunk).segmentCount = p.segmentCount := rfl
  unfold Pile.delete
  rw [hview]
  refine ⟨rfl, ?_⟩
  show p.DeletedAt ((p.deleteIn q.segment chunk).releaseIfEmpty q.segment).1 q
  generalize s.release p.policy chunk = s' at *
  generalize p.deleteIn q.segment chunk = p' at *
  rcases Nat.eq_zero_or_pos s'.liveCount with hzero | hpos
  · -- the slot becomes vacant, and nothing could be found in the segment any more
    have hnone := hreachable.lookup_eq_none h.policy hzero
    have hbytes := hreachable.storedBytes_eq_zero h.policy hzero
    rw [releaseIfEmpty_of_eq_zero hhere hzero]
    have hkept : ∀ t ∈ (none : Option Segment), t = s' ∧ 0 < s'.liveCount := by
      intro t ht
      simp at ht
    refine h.deletedAt hstate ?_ hpile ?_ hold hkept (fun o g => (hnone o g).symm)
      hreachable hreleased hgeneration (trimmed_vacate p'.slots q.segment)
      (hcounted.vacate hhere hzero hbytes) ?_
    · exact ⟨hframe.id_eq, hframe.name_eq, hframe.settings_eq, hframe.policy_eq, hframe.state_eq⟩
    · intro j
      refine (join_vacate p'.slots q.segment j).trans ?_
      split
      · rfl
      · rename_i hj
        exact (hslot j).trans (if_neg hj)
    · show p'.segmentCount - 1 ≤ p.segmentCount
      omega
  · rw [releaseIfEmpty_of_pos hhere hpos]
    have hkept : ∀ t ∈ some s', t = s' ∧ 0 < s'.liveCount := by
      intro t ht
      exact ⟨(Option.some.inj ht).symm, hpos⟩
    exact h.deletedAt hstate hframe hpile hslot hold hkept (fun o g => rfl) hreachable hreleased
      hgeneration htrimmed hcounted (Nat.le_of_eq hcount)

end Pile

end ObjectPile
