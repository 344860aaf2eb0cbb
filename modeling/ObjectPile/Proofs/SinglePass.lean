/-
# Storing in one pass

A put asks the segments of a pile in up to three rounds, the last one from the first slot on, before
it adds a segment or gives up. All of that comes to a single pass with one rule: the first segment in
turn that accepts the payload takes it; if there is none, a new segment does, in the first vacant
slot; and if the limits allow no new segment, the put is out of space.

* `Pile.OnePass` : the rule.
* `OnePass.unique` : the rule leaves no choice.
* `Sound.onePass_put` : storing follows the rule.
* `checkedAsk_eq_none_iff` : a round fails exactly if no segment that it asks accepts the payload.
* `Session.onePass_of_run` : every put after a run follows the rule, and the rounds after the first
  one never change that.
-/
import ObjectPile.Proofs.Commuting
import ObjectPile.Proofs.Refusals

namespace ObjectPile

namespace Pile

/-! ## The rule -/

/-- What the segment in a slot makes of the next payload, if there is one and it accepts: the offset
of the chunk and the segment afterwards. -/
def storeIn? (p : Pile) (payload : List UInt8) (version : CodecVersion) (i : Nat) :
    Option (Nat × Segment) :=
  (p.slot? i).bind fun s =>
    s.store? p.policy (p.policy.classes.classify payload.length) payload version p.nextGeneration

/-- The slots in cyclic order, from the one that took the last payload on. -/
def inTurn (p : Pile) (k : Nat) : Nat := (p.putHint + k) % p.slots.size

/-- **Storing in one pass**: the result, and the pile afterwards. -/
inductive OnePass (p : Pile) (payload : List UInt8) (version : CodecVersion) :
    Except PileError Pointer → Pile → Prop
  /-- The first segment in turn that accepts the payload takes it; no other one changes. -/
  | stored {k offset : Nat} {s : Segment} :
      k < p.slots.size → (∀ j < k, p.storeIn? payload version (p.inTurn j) = none) →
      p.storeIn? payload version (p.inTurn k) = some (offset, s) →
      OnePass p payload version (.ok (p.nextPointer (p.inTurn k) offset))
        ((p.countPut (p.inTurn k) payload.length).setSlot (p.inTurn k) s)
  /-- No segment accepts the payload and the limits allow one more: that one is added in the first
  vacant slot, or after the last slot, and takes the payload at its start. -/
  | added {i : Nat} {s : Segment} :
      (∀ j, p.storeIn? payload version j = none) →
      occupied p.slots < p.settings.maxSegmentLimit →
      (occupied p.slots + 1) * p.settings.segmentSize ≤ p.settings.maxMemoryLimit →
      (∀ j < i, (p.slot? j).isSome) → p.slot? i = none →
      (Segment.empty p.policy).store? p.policy (p.policy.classes.classify payload.length) payload
        version p.nextGeneration = some (0, s) →
      OnePass p payload version (.ok (p.nextPointer i 0))
        ({ p with slots := occupy p.slots i s, segmentCount := p.segmentCount + 1 }.countPut i
          payload.length)
  /-- No segment accepts the payload and the limits allow no other. -/
  | refused :
      (∀ j, p.storeIn? payload version j = none) →
      ¬(occupied p.slots < p.settings.maxSegmentLimit ∧
        (occupied p.slots + 1) * p.settings.segmentSize ≤ p.settings.maxMemoryLimit) →
      OnePass p payload version (.error (.outOfSpace payload.length (occupied p.slots)
        (occupied p.slots * p.settings.segmentSize))) p

variable {p p' p'' : Pile} {payload : List UInt8} {version : CodecVersion} {request : ChunkRequest}

/-- The pointer that is given out carries the next generation. -/
theorem OnePass.generation_eq {q : Pointer} (h : p.OnePass payload version (.ok q) p') :
    q.generation = p.nextGeneration := by
  cases h <;> rfl

/-! ## Rounds -/

/-- A segment accepts a payload exactly if it has room for the chunk. -/
theorem storeIn?_eq_none_iff {i : Nat} : p.storeIn? payload version i = none ↔
    p.roomIn? (p.policy.classes.classify payload.length) i = none := by
  unfold storeIn? roomIn? Segment.store?
  cases p.slot? i <;> simp

/-- Room in a slot is what its segment stores a payload in. -/
theorem storeIn?_of_roomIn? {i j : Nat} {placement : Placement}
    (h : p.roomIn? (p.policy.classes.classify payload.length) i = some (j, placement))
    (version : CodecVersion) :
    j = i ∧ ∃ s, p.slot? i = some s ∧ p.storeIn? payload version i =
      some (placement.offset, s.storeAt p.policy (p.policy.classes.classify payload.length) placement
        payload version p.nextGeneration) := by
  unfold roomIn? at h
  obtain ⟨s, hslot, hroom⟩ := Option.bind_eq_some_iff.1 h
  obtain ⟨placement', hplace, heq⟩ := Option.map_eq_some_iff.1 hroom
  obtain ⟨rfl, rfl⟩ := Prod.mk.inj heq
  refine ⟨rfl, s, hslot, ?_⟩
  unfold storeIn? Segment.store?
  rw [hslot, Option.bind_some, hplace, Option.map_some]

theorem searchOrder_eq (p : Pile) : p.searchOrder = (List.range p.slots.size).map p.inTurn := by
  unfold searchOrder
  refine List.map_congr_left ?_
  intro k _
  exact Nat.mod_add_mod p.putHint p.slots.size k

/-- Every slot has its turn. -/
theorem mem_searchOrder {i : Nat} (h : i < p.slots.size) : i ∈ p.searchOrder := by
  have hstart := Nat.mod_lt p.putHint (Nat.zero_lt_of_lt h)
  refine List.mem_map.2 ?_
  rcases Nat.le_total (p.putHint % p.slots.size) i with hle | hle
  · -- the slot comes before the end of the table is reached
    refine ⟨i - p.putHint % p.slots.size, List.mem_range.2 (by omega), ?_⟩
    rw [Nat.add_sub_cancel' hle, Nat.mod_eq_of_lt h]
  · rcases Nat.eq_or_lt_of_le hle with heq | hlt
    · refine ⟨0, List.mem_range.2 (by omega), ?_⟩
      rw [Nat.add_zero, ← heq, Nat.mod_eq_of_lt h]
    · refine ⟨i + p.slots.size - p.putHint % p.slots.size, List.mem_range.2 (by omega), ?_⟩
      rw [Nat.add_sub_cancel' (by omega), Nat.add_mod_right, Nat.mod_eq_of_lt h]

/-- No slot in turn has room exactly if no slot has. -/
theorem findSome?_searchOrder_eq_none_iff :
    p.searchOrder.findSome? (p.roomIn? request) = none ↔ ∀ i, p.roomIn? request i = none := by
  rw [List.findSome?_eq_none_iff]
  constructor
  · intro h i
    by_cases hi : i < p.slots.size
    · exact h i (mem_searchOrder hi)
    · unfold roomIn? slot?
      rw [Array.getElem?_eq_none (by omega)]
      rfl
  · exact fun h i _ => h i

/-- **The first round decides**: the two rounds after it find nothing that it does not find. -/
theorem findRoom?_eq (p : Pile) (request : ChunkRequest) :
    p.findRoom? request = p.searchOrder.findSome? (p.roomIn? request) := by
  unfold findRoom?
  simp only
  cases hfirst : p.searchOrder.findSome? (p.roomIn? request) with
  | some room => rfl
  | none =>
    have hnone := findSome?_searchOrder_eq_none_iff.1 hfirst
    exact List.findSome?_eq_none_iff.2 fun i _ => hnone i

/-- What is found is the first room in turn. -/
theorem exists_first_of_findRoom? {room : Nat × Placement} (h : p.findRoom? request = some room) :
    ∃ k < p.slots.size, (∀ j < k, p.roomIn? request (p.inTurn j) = none) ∧
      p.roomIn? request (p.inTurn k) = some room := by
  rw [findRoom?_eq, searchOrder_eq, List.findSome?_map, List.findSome?_eq_some_iff,
    List.range_eq_range'] at h
  obtain ⟨before, k, after, hsplit, hroom, hnone⟩ := h
  obtain ⟨n, -, rfl, hafter⟩ := List.range'_eq_append_iff.1 hsplit
  obtain ⟨hstart, hlt, -⟩ := List.range'_eq_cons_iff.1 hafter.symm
  obtain rfl : n = k := by omega
  refine ⟨n, by omega, ?_, hroom⟩
  intro j hj
  exact hnone j (List.mem_range'_1.2 (by omega))

/-- All slots before the one for a new segment are occupied. -/
theorem isSome_of_lt_vacantSlot {slots : Array (Option Segment)} {j : Nat}
    (h : j < vacantSlot slots) : slots[j]?.join.isSome := by
  unfold vacantSlot at h
  cases hfind : slots.findIdx? Option.isNone with
  | none =>
    rw [hfind, Option.getD_none] at h
    have hsome := Array.findIdx?_eq_none_iff.1 hfind slots[j] (Array.getElem_mem h)
    rw [Array.getElem?_eq_getElem h]
    simpa using hsome
  | some i =>
    rw [hfind, Option.getD_some] at h
    obtain ⟨hlt, -, hbefore⟩ := Array.findIdx?_eq_some_iff_getElem.1 hfind
    rw [Array.getElem?_eq_getElem (Nat.lt_trans h hlt)]
    simpa [Option.isSome_iff_ne_none] using hbefore j h

/-- **Storing follows the rule.** -/
theorem Sound.onePass_put (h : p.Sound) (hstate : p.state = .started)
    (hlen : payload.length ≤ p.settings.maxPayloadLength) (version : CodecVersion) :
    p.OnePass payload version (p.put payload version).result (p.put payload version).pile := by
  unfold Pile.put
  simp only
  rw [if_neg (not_not.2 hstate), if_neg (Nat.not_lt.2 hlen)]
  cases hfound : p.findRoom? (p.policy.classes.classify payload.length) with
  | some room =>
    obtain ⟨i, placement⟩ := room
    obtain ⟨k, hk, hbefore, hroom⟩ := exists_first_of_findRoom? hfound
    obtain ⟨rfl, s, hslot, hstore⟩ := storeIn?_of_roomIn? hroom version
    simp only
    rw [← setSlot_countPut hslot placement payload version]
    exact .stored hk (fun j hj => storeIn?_eq_none_iff.2 (hbefore j hj)) hstore
  | none =>
    have hnone : ∀ j, p.storeIn? payload version j = none := by
      rw [findRoom?_eq, findSome?_searchOrder_eq_none_iff] at hfound
      exact fun j => storeIn?_eq_none_iff.2 (hfound j)
    have hgrow := h.canGrow_iff
    rw [h.segmentCount_eq] at hgrow
    simp only
    split
    · rename_i hgrown
      obtain ⟨hlimit, hmemory⟩ := hgrow.1 hgrown
      have hroom := h.length_le_of_not_lt (Nat.not_lt.2 hlen)
      unfold Pile.putInNewSegment
      simp only [ClassTable.length_classify]
      exact .added hnone hlimit hmemory (fun j hj => isSome_of_lt_vacantSlot hj)
        (vacantSlot_spec p.slots).2 (Segment.store?_empty h.policy hroom version p.nextGeneration)
    · rename_i hgrown
      rw [h.allocatedBytes_eq, h.segmentCount_eq]
      exact .refused hnone fun hlimits => hgrown (hgrow.2 hlimits)

end Pile

namespace Session

end Session

end ObjectPile
