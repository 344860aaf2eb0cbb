/-
# Piles

The invariant of piles, and reading from them. The contents of a pile are what its pointers lead to,
and the figures that it keeps are sums over its segments. An operation on objects changes one slot
of the table, so that what it owes the invariant is said once, for the change of one slot.

* `Pile.lookup` : the payload and the version that a pointer leads to.
* `Pile.Sound` : what holds of a pile at all times.
* `Pile.view_of_lookup_eq_some`, `Pile.view_of_lookup_eq_none` : reading as looking at the contents.
* `Counted.of_slot`, `Sound.of_slot` : what keeps the invariant when one slot changes.
-/
import ObjectPile.Pile.Read
import ObjectPile.Proofs.Contents
import ObjectPile.Proofs.Slots

namespace ObjectPile

namespace Pile

/-! ## Contents -/

/-- The payload and the version that a pointer leads to. -/
def lookup (p : Pile) (q : Pointer) : Option (List UInt8 × CodecVersion) :=
  if q.pile = p.id then (p.slot? q.segment).bind fun s => s.lookup q.offset q.generation else none

/-- A pile whose table differs in one slot has the same contents elsewhere. -/
theorem lookup_of_slot {p p' : Pile} {i : Nat} {slot : Option Segment} (hid : p'.id = p.id)
    (hslot : ∀ j, p'.slot? j = if j = i then slot else p.slot? j) (q : Pointer) :
    p'.lookup q =
      if q.pile = p.id ∧ q.segment = i then slot.bind fun s => s.lookup q.offset q.generation
      else p.lookup q := by
  unfold lookup
  rw [hid, hslot]
  by_cases hpile : q.pile = p.id
  · by_cases hseg : q.segment = i
    · rw [if_pos hpile, if_pos hseg, if_pos ⟨hpile, hseg⟩]
    · rw [if_pos hpile, if_neg hseg, if_neg fun hand => hseg hand.2, if_pos hpile]
  · rw [if_neg hpile, if_neg fun hand => hpile hand.1, if_neg hpile]

/-- A pile without segments has no contents. -/
theorem lookup_of_slots_eq {p : Pile} (h : p.slots = #[]) : p.lookup = fun _ => none := by
  funext q
  unfold lookup slot?
  rw [h]
  split <;> rfl

/-! ## Reading -/

section Reading

variable {α : Type} {p : Pile} {q : Pointer} (f : Segment → LiveChunk → α)

/-- A pointer that leads nowhere is an access violation. -/
theorem view_of_lookup_eq_none (hstate : p.state = .started) (h : p.lookup q = none) :
    p.view q f = .error (.accessViolation q) := by
  unfold view
  rw [if_neg (not_not.2 hstate)]
  by_cases hpile : q.pile = p.id
  · unfold lookup at h
    rw [if_pos hpile] at h
    rw [if_neg (not_not.2 hpile)]
    cases hslot : p.slot? q.segment with
    | none => rfl
    | some s =>
      rw [hslot] at h
      have hresolve : s.resolve? q.offset q.generation = none := Option.map_eq_none_iff.1 h
      simp only [hresolve]
  · rw [if_pos hpile]

/-- A pointer that leads to a payload names a chunk with that payload. -/
theorem view_of_lookup_eq_some (hstate : p.state = .started) {payload : List UInt8}
    {version : CodecVersion} (h : p.lookup q = some (payload, version)) :
    ∃ s chunk, p.slot? q.segment = some s ∧ s.resolve? q.offset q.generation = some chunk ∧
      s.payload chunk = payload ∧ chunk.length = payload.length ∧ chunk.version = version ∧
        p.view q f = .ok (some (f s chunk)) := by
  unfold lookup at h
  split at h
  · rename_i hpile
    obtain ⟨s, hslot, hlookup⟩ := Option.bind_eq_some_iff.1 h
    obtain ⟨chunk, hresolve, heq⟩ := Option.map_eq_some_iff.1 hlookup
    obtain ⟨hpayload, hversion⟩ := Prod.mk.inj heq
    refine ⟨s, chunk, hslot, hresolve, hpayload, ?_, hversion, ?_⟩
    · rw [← hpayload, Segment.payload, Tape.length_read]
    · unfold view
      rw [if_neg (not_not.2 hstate), if_neg (not_not.2 hpile)]
      simp only [hslot, hresolve]
  · simp at h

end Reading

/-! ## The invariant -/

/-- The figures of a pile are sums over its segments. -/
structure Counted (p : Pile) : Prop where
  segmentCount_eq : p.segmentCount = occupied p.slots
  objectCount_eq : p.objectCount = total Segment.liveCount p.slots
  utilizedBytes_eq : p.utilizedBytes = total Segment.storedBytes p.slots

/-- **What holds of a pile at all times.** Its settings are accepted ones and its policy is theirs;
its segments are reachable and none of them is empty; its figures are sums over the segments and
within the limits; generations up to the next one are those it has given out; and it has segments
only while it is started. -/
structure Sound (p : Pile) : Prop extends Counted p where
  accepted : p.settings.Accepted
  policy_eq : p.policy = .ofSettings p.settings
  reachable : ∀ i s, p.slot? i = some s → Segment.Reachable p.policy s
  liveCount_pos : ∀ i s, p.slot? i = some s → 0 < s.liveCount
  generation_lt : ∀ q, (p.lookup q).isSome → q.generation < p.nextGeneration
  generation_pos : 0 < p.nextGeneration
  trimmed : Trimmed p.slots
  segmentCount_le : p.segmentCount ≤ p.settings.maxSegmentLimit
  allocated_le : p.segmentCount * p.settings.segmentSize ≤ p.settings.maxMemoryLimit
  idle : p.state ≠ .started → p.slots = #[]

/-- A pile without segments is sound if its settings are. -/
theorem sound_of_slots_eq {p : Pile} (haccepted : p.settings.Accepted)
    (hpolicy : p.policy = .ofSettings p.settings) (hgeneration : 0 < p.nextGeneration)
    (hslots : p.slots = #[]) (hsegments : p.segmentCount = 0) (hobjects : p.objectCount = 0)
    (hbytes : p.utilizedBytes = 0) : p.Sound := by
  have hslot : ∀ i, p.slot? i = none := fun i => by
    unfold slot?
    rw [hslots]
    rfl
  refine ⟨⟨?_, ?_, ?_⟩, haccepted, hpolicy, ?_, ?_, ?_, hgeneration, ?_, ?_, ?_, fun _ => hslots⟩
  · rw [hsegments, hslots]
    rfl
  · rw [hobjects, hslots]
    rfl
  · rw [hbytes, hslots]
    rfl
  · intro i s hs
    simp [hslot] at hs
  · intro i s hs
    simp [hslot] at hs
  · intro q hq
    simp [lookup_of_slots_eq hslots] at hq
  · simp [Trimmed, hslots]
  · rw [hsegments]
    exact Nat.zero_le _
  · rw [hsegments, Nat.zero_mul]
    exact Nat.zero_le _

namespace Sound

variable {p : Pile}

theorem policy (h : p.Sound) : p.policy.Sound := by
  rw [h.policy_eq]
  exact h.accepted.sound.policy

/-- Outside of its working life a pile has no segments, and its figures are zero. -/
theorem counts_of_idle (h : p.Sound) (hstate : p.state ≠ .started) :
    p.slots = #[] ∧ p.segmentCount = 0 ∧ p.objectCount = 0 ∧ p.utilizedBytes = 0 := by
  have hslots := h.idle hstate
  refine ⟨hslots, ?_, ?_, ?_⟩
  · rw [h.segmentCount_eq, hslots]
    rfl
  · rw [h.objectCount_eq, hslots]
    rfl
  · rw [h.utilizedBytes_eq, hslots]
    rfl

/-- The bytes of all segments are not cut off at the largest word. -/
theorem allocatedBytes_eq (h : p.Sound) :
    p.allocatedBytes = p.segmentCount * p.settings.segmentSize :=
  satMul_eq_mul (Nat.le_trans h.allocated_le h.accepted.sound.maxMemoryLimit_le)

end Sound

/-! ## The change of one slot -/

/-- The figures stay sums over the segments if one slot changes and they change by as much. -/
theorem Counted.of_slot {p p' : Pile} (h : p.Counted) (old new : Option Segment)
    (hsum : ∀ figure : Segment → Nat,
      total figure p'.slots + old.elim 0 figure = total figure p.slots + new.elim 0 figure)
    (hsegments : p'.segmentCount + old.elim 0 (fun _ => 1) =
      p.segmentCount + new.elim 0 fun _ => 1)
    (hobjects : p'.objectCount + old.elim 0 Segment.liveCount =
      p.objectCount + new.elim 0 Segment.liveCount)
    (hbytes : p'.utilizedBytes + old.elim 0 Segment.storedBytes =
      p.utilizedBytes + new.elim 0 Segment.storedBytes) : p'.Counted := by
  refine ⟨?_, ?_, ?_⟩
  · have hone := hsum fun _ => 1
    have hcount := h.segmentCount_eq
    rw [occupied_eq_total] at hcount ⊢
    omega
  · have hlive := hsum Segment.liveCount
    have hcount := h.objectCount_eq
    omega
  · have hstored := hsum Segment.storedBytes
    have hcount := h.utilizedBytes_eq
    omega

/-- What operations on objects leave as it is. -/
structure SameFrame (p p' : Pile) : Prop where
  id_eq : p'.id = p.id
  name_eq : p'.name = p.name
  settings_eq : p'.settings = p.settings
  policy_eq : p'.policy = p.policy
  state_eq : p'.state = p.state

/-- A pile stays sound when the content of one slot changes and its figures are brought up to
date. -/
theorem Sound.of_slot {p p' : Pile} (h : p.Sound) (hstate : p.state = .started)
    (hframe : p.SameFrame p') {i : Nat} {slot : Option Segment}
    (hslot : ∀ j, p'.slot? j = if j = i then slot else p.slot? j)
    (hnew : ∀ s ∈ slot, Segment.Reachable p.policy s ∧ 0 < s.liveCount)
    (hgeneration : ∀ q, (p'.lookup q).isSome → q.generation < p'.nextGeneration)
    (hpos : 0 < p'.nextGeneration) (htrimmed : Trimmed p'.slots) (hcounted : p'.Counted)
    (hlimit : p'.segmentCount ≤ p.settings.maxSegmentLimit)
    (hmemory : p'.segmentCount * p.settings.segmentSize ≤ p.settings.maxMemoryLimit) :
    p'.Sound := by
  -- what holds of the segments of `p` and of the new one holds of those of `p'`
  have hsegments : ∀ j s, p'.slot? j = some s →
      Segment.Reachable p.policy s ∧ 0 < s.liveCount := by
    intro j s hj
    rw [hslot] at hj
    split at hj
    · exact hnew s hj
    · exact ⟨h.reachable j s hj, h.liveCount_pos j s hj⟩
  refine ⟨hcounted, ?_, ?_, ?_, fun j s hj => (hsegments j s hj).2, hgeneration, hpos, htrimmed, ?_,
    ?_, ?_⟩
  · rw [hframe.settings_eq]
    exact h.accepted
  · rw [hframe.settings_eq, hframe.policy_eq]
    exact h.policy_eq
  · intro j s hj
    rw [hframe.policy_eq]
    exact (hsegments j s hj).1
  · rwa [hframe.settings_eq]
  · rwa [hframe.settings_eq]
  · intro hidle
    rw [hframe.state_eq] at hidle
    exact absurd hstate hidle

end Pile

end ObjectPile
