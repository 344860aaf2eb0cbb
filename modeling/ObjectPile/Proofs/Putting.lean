/-
# Putting

What storing a payload does to a pile: in a segment that has room for it, or in a new one. Either
way one segment has one answer more, and the pile one object more, under the next generation.

* `Pile.PutAt` : what storing a payload does to a pile.
* `Sound.putAt` : it does so wherever the payload goes.
* `Sound.put` : storing adds the new pointer to the contents, or changes nothing at all.
-/
import ObjectPile.Pile.Put
import ObjectPile.Proofs.Piles

namespace ObjectPile

/-- A new segment has room for every payload that is not too long for segments. -/
theorem Segment.store?_empty {policy : AllocationPolicy} (hp : policy.Sound) {payload : List UInt8}
    (hroom : payload.length + headerSize ≤ policy.segmentSize) (version : CodecVersion)
    (generation : Nat) :
    (Segment.empty policy).store? policy (policy.classes.classify payload.length) payload version
      generation = some (0, (Segment.empty policy).storeAt policy
        (policy.classes.classify payload.length) (.extend 0) payload version generation) := by
  have hrep := represents_empty policy
  have hfits := hp.classes.chunkSize_le hp.segmentSize_mod hp.classes_fit hroom
  have hnone : (Segment.empty policy).reusable? policy
      (policy.classes.classify payload.length) = none := by
    cases hmode : policy.mode with
    | favorSpeed =>
      rw [hrep.listed.reusable?_of_favorSpeed hmode]
      split <;> rfl
    | reuseSpace =>
      rw [hrep.listed.reusable?_of_reuseSpace hp hrep.carved hmode]
      simp
  have hplace : (Segment.empty policy).place? policy (policy.classes.classify payload.length) =
      some (.extend 0) := by
    unfold place?
    rw [hnone]
    exact if_pos (by simpa [Segment.empty] using hfits)
  unfold store?
  rw [hplace]
  rfl

theorem Segment.storedBytes_empty (policy : AllocationPolicy) :
    (Segment.empty policy).storedBytes = 0 := by
  simp [storedBytes, liveChunks, chunks, offsets, empty]

namespace Pile

/-- What storing a payload does to a pile. -/
structure PutAt (p p' : Pile) (q : Pointer) (payload : List UInt8) (version : CodecVersion) :
    Prop where
  sound : p'.Sound
  frame : p.SameFrame p'
  started : p.state = .started
  generation_eq : q.generation = p.nextGeneration
  nextGeneration_eq : p'.nextGeneration = p.nextGeneration + 1
  lookup_eq : p'.lookup = Function.update p.lookup q (some (payload, version))

/-- The pointer to what was stored has a generation. -/
theorem PutAt.isValid {p p' : Pile} {q : Pointer} {payload : List UInt8} {version : CodecVersion}
    (hput : p.PutAt p' q payload version) (h : p.Sound) : q.isValid = true := by
  have hpos := h.generation_pos
  simp only [Pointer.isValid, hput.generation_eq, bne_iff_ne]
  omega

/-- One segment more is one answer more. -/
theorem lookup_of_stored {p p' : Pile} {i offset generation : Nat} {s₀ s' : Segment}
    {payload : List UInt8} {version : CodecVersion} (hid : p'.id = p.id)
    (hslot : ∀ j, p'.slot? j = if j = i then some s' else p.slot? j)
    (hbase : ∀ o g, ((p.slot? i).bind fun s => s.lookup o g) = s₀.lookup o g)
    (hstored : s₀.Stored s' offset generation payload version) :
    p'.lookup = Function.update p.lookup ⟨p.id, i, offset, generation⟩
      (some (payload, version)) := by
  funext r
  obtain ⟨pile, segment, o, g⟩ := r
  rw [lookup_of_slot hid hslot, Function.update_apply]
  simp only [Pointer.mk.injEq]
  by_cases hhere : pile = p.id ∧ segment = i
  · obtain ⟨rfl, rfl⟩ := hhere
    rw [if_pos ⟨rfl, rfl⟩, Option.bind_some, hstored.lookup_eq]
    by_cases hog : o = offset ∧ g = generation
    · rw [if_pos hog, if_pos ⟨rfl, rfl, hog.1, hog.2⟩]
    · rw [if_neg hog, if_neg fun hand => hog ⟨hand.2.2.1, hand.2.2.2⟩]
      unfold lookup
      rw [if_pos rfl, hbase]
  · rw [if_neg hhere, if_neg fun hand => hhere ⟨hand.1, hand.2.1⟩]

namespace Sound

variable {p p' : Pile} {payload : List UInt8} {version : CodecVersion}

/-- A pile has room for one more segment exactly if the limits say so. -/
theorem canGrow_iff (h : p.Sound) : p.canGrow = true ↔
    p.segmentCount < p.settings.maxSegmentLimit ∧
      (p.segmentCount + 1) * p.settings.segmentSize ≤ p.settings.maxMemoryLimit := by
  unfold canGrow
  rw [Bool.and_eq_true, decide_eq_true_iff, decide_eq_true_iff, h.allocatedBytes_eq, Nat.add_mul,
    Nat.one_mul]

/-- A payload that is not refused for its length fits into a segment of its own. -/
theorem length_le_of_not_lt (h : p.Sound) (hlong : ¬p.settings.maxPayloadLength < payload.length) :
    payload.length + headerSize ≤ p.policy.segmentSize := by
  have hmin := h.accepted.sound.minSegmentSize_le
  rw [h.policy_eq]
  unfold Settings.maxPayloadLength headerSize at hlong
  unfold minSegmentSize at hmin
  simp only [AllocationPolicy.ofSettings, headerSize]
  omega

/-- Storing in a segment, old or new, keeps a pile sound if its figures are brought up to date. -/
theorem putAt (h : p.Sound) (hstate : p.state = .started) (hframe : p.SameFrame p')
    {i offset : Nat} {s₀ s' : Segment}
    (hslot : ∀ j, p'.slot? j = if j = i then some s' else p.slot? j)
    (hbase : ∀ o g, ((p.slot? i).bind fun s => s.lookup o g) = s₀.lookup o g)
    (hreachable : Segment.Reachable p.policy s')
    (hstored : s₀.Stored s' offset p.nextGeneration payload version)
    (hgeneration : p'.nextGeneration = p.nextGeneration + 1) (htrimmed : Trimmed p'.slots)
    (hcounted : p'.Counted) (hlimit : p'.segmentCount ≤ p.settings.maxSegmentLimit)
    (hmemory : p'.segmentCount * p.settings.segmentSize ≤ p.settings.maxMemoryLimit) :
    p.PutAt p' ⟨p.id, i, offset, p.nextGeneration⟩ payload version := by
  have hlookup := lookup_of_stored hframe.id_eq hslot hbase hstored
  have hnew : ∀ s ∈ some s', Segment.Reachable p.policy s ∧ 0 < s.liveCount := by
    intro s hs
    obtain rfl := Option.some.inj hs
    rw [hstored.liveCount_eq]
    exact ⟨hreachable, Nat.succ_pos _⟩
  have hlt : ∀ q, (p'.lookup q).isSome → q.generation < p'.nextGeneration := by
    intro q hq
    rw [hgeneration]
    rw [hlookup, Function.update_apply] at hq
    split at hq
    · rename_i heq
      rw [heq]
      exact Nat.lt_succ_self _
    · exact Nat.lt_succ_of_lt (h.generation_lt q hq)
  have hpos : 0 < p'.nextGeneration := by
    rw [hgeneration]
    exact Nat.succ_pos _
  exact ⟨h.of_slot hstate hframe hslot hnew hlt hpos htrimmed hcounted hlimit hmemory, hframe,
    hstate, rfl, hgeneration, hlookup⟩

/-- Storing in a segment that the pile has. -/
theorem putInSlot (h : p.Sound) (hstate : p.state = .started) (hmax : p.nextGeneration ≤ maxWord)
    {i : Nat} {s : Segment} {placement : Placement} (hi : p.slot? i = some s)
    (hplace : s.place? p.policy (p.policy.classes.classify payload.length) = some placement) :
    p.PutAt (p.putInSlot i placement (p.policy.classes.classify payload.length) payload
      version).pile (p.nextPointer i placement.offset) payload version := by
  have hstore : s.store? p.policy (p.policy.classes.classify payload.length) payload version
      p.nextGeneration = some (placement.offset, s.storeAt p.policy
        (p.policy.classes.classify payload.length) placement payload version p.nextGeneration) := by
    unfold Segment.store?
    rw [hplace]
    rfl
  have hne : p.nextGeneration ≠ 0 := Nat.ne_of_gt h.generation_pos
  have hreachable := h.reachable i s hi
  have hstored := hreachable.stored h.policy hne hmax hstore
  have hframe : p.SameFrame (p.putInSlot i placement (p.policy.classes.classify payload.length)
      payload version).pile := ⟨rfl, rfl, rfl, rfl, rfl⟩
  have hjoin : p.slots[i]?.join = some s := hi
  refine h.putAt hstate hframe ?_ ?_ (hreachable.store hne hmax hstore) hstored rfl
    (h.trimmed.modify _ i) ?_ h.segmentCount_le h.allocated_le
  · intro j
    refine (join_modify _ p.slots i j).trans ?_
    rw [hjoin]
    rfl
  · intro o g
    rw [hi]
    rfl
  · have hsum := fun figure => total_modify figure (fun s => s.storeAt p.policy
      (p.policy.classes.classify payload.length) placement payload version p.nextGeneration) hjoin
    refine h.toCounted.of_slot (some s) (some _) hsum rfl ?_ ?_
    · have hcount := hstored.liveCount_eq
      show p.objectCount + 1 + s.liveCount = p.objectCount + Segment.liveCount _
      omega
    · have hcount := hstored.storedBytes_eq
      show p.utilizedBytes + (p.policy.classes.classify payload.length).length + s.storedBytes =
        p.utilizedBytes + Segment.storedBytes _
      rw [ClassTable.length_classify]
      omega

/-- Storing in a new segment. -/
theorem putInNewSegment (h : p.Sound) (hstate : p.state = .started)
    (hmax : p.nextGeneration ≤ maxWord) (hroom : payload.length + headerSize ≤ p.policy.segmentSize)
    (hgrow : p.canGrow = true) :
    p.PutAt (p.putInNewSegment (p.policy.classes.classify payload.length) payload version).pile
      (p.nextPointer (vacantSlot p.slots) 0) payload version := by
  obtain ⟨hlimit, hmemory⟩ := h.canGrow_iff.1 hgrow
  obtain ⟨hi, hvacant⟩ := vacantSlot_spec p.slots
  have hstore := Segment.store?_empty h.policy hroom version p.nextGeneration
  have hne : p.nextGeneration ≠ 0 := Nat.ne_of_gt h.generation_pos
  have hempty : Segment.Reachable p.policy (Segment.empty p.policy) := .empty
  have hstored := hempty.stored h.policy hne hmax hstore
  have hreachable := hempty.store hne hmax hstore
  have hslots : (p.putInNewSegment (p.policy.classes.classify payload.length) payload
      version).pile.slots = occupy p.slots (vacantSlot p.slots) ((Segment.empty p.policy).storeAt
        p.policy (p.policy.classes.classify payload.length) (.extend 0) payload version
          p.nextGeneration) := rfl
  have hframe : p.SameFrame (p.putInNewSegment (p.policy.classes.classify payload.length) payload
      version).pile := ⟨rfl, rfl, rfl, rfl, rfl⟩
  generalize (Segment.empty p.policy).storeAt p.policy (p.policy.classes.classify payload.length)
    (.extend 0) payload version p.nextGeneration = s at hstored hreachable hslots
  have hnone : p.slot? (vacantSlot p.slots) = none := hvacant
  refine h.putAt hstate hframe ?_ ?_ hreachable hstored rfl ?_ ?_ hlimit hmemory
  · intro j
    unfold slot?
    rw [hslots]
    exact join_occupy s hi j
  · intro o g
    rw [hnone, Segment.lookup_empty]
    rfl
  · rw [hslots]
    exact h.trimmed.occupy s hi
  · have hsum : ∀ figure : Segment → Nat,
        total figure (p.putInNewSegment (p.policy.classes.classify payload.length) payload
          version).pile.slots = total figure p.slots + figure s := by
      intro figure
      rw [hslots]
      exact total_occupy figure s hi hvacant
    refine h.toCounted.of_slot none (some s) hsum rfl ?_ ?_
    · have hcount : s.liveCount = 0 + 1 := hstored.liveCount_eq
      show p.objectCount + 1 = p.objectCount + s.liveCount
      omega
    · have hcount := hstored.storedBytes_eq
      rw [Segment.storedBytes_empty] at hcount
      show p.utilizedBytes + (p.policy.classes.classify payload.length).length =
        p.utilizedBytes + s.storedBytes
      rw [ClassTable.length_classify]
      omega

end Sound

/-- Room that is found is in a segment of the pile. -/
theorem exists_of_findRoom? {p : Pile} {request : ChunkRequest} {i : Nat} {placement : Placement}
    (h : p.findRoom? request = some (i, placement)) :
    ∃ s, p.slot? i = some s ∧ s.place? p.policy request = some placement := by
  have hroom : ∃ j, p.roomIn? request j = some (i, placement) := by
    unfold findRoom? at h
    simp only at h
    split at h
    · rename_i hfirst
      rw [h] at hfirst
      obtain ⟨j, -, hj⟩ := List.exists_of_findSome?_eq_some hfirst
      exact ⟨j, hj⟩
    · obtain ⟨j, -, hj⟩ := List.exists_of_findSome?_eq_some h
      exact ⟨j, hj⟩
  obtain ⟨j, hj⟩ := hroom
  obtain ⟨s, hs, hplace⟩ := Option.bind_eq_some_iff.1 hj
  obtain ⟨placement', hplace', heq⟩ := Option.map_eq_some_iff.1 hplace
  obtain ⟨rfl, rfl⟩ := Prod.mk.inj heq
  exact ⟨s, hs, hplace'⟩

/-- **Storing adds the new pointer to the contents, or changes nothing at all.** -/
theorem Sound.put {p : Pile} (h : p.Sound) (hmax : p.nextGeneration ≤ maxWord)
    (payload : List UInt8) (version : CodecVersion) :
    (∃ q, (p.put payload version).result = .ok q ∧
      p.PutAt (p.put payload version).pile q payload version) ∨
    ((p.put payload version).pile = p ∧
      ∀ q, (p.put payload version).result = .ok q → q = .invalid) := by
  unfold Pile.put
  simp only
  by_cases hstate : p.state = .started
  · rw [if_neg (not_not.2 hstate)]
    by_cases hlong : p.settings.maxPayloadLength < payload.length
    · rw [if_pos hlong]
      exact .inr ⟨rfl, fun q hq => by simp [Outcome.unchanged] at hq⟩
    · rw [if_neg hlong]
      cases hfound : p.findRoom? (p.policy.classes.classify payload.length) with
      | some room =>
        obtain ⟨i, placement⟩ := room
        obtain ⟨s, hi, hplace⟩ := exists_of_findRoom? hfound
        exact .inl ⟨_, rfl, h.putInSlot hstate hmax hi hplace⟩
      | none =>
        simp only
        by_cases hgrow : p.canGrow = true
        · rw [if_pos hgrow]
          exact .inl ⟨_, rfl, h.putInNewSegment hstate hmax (h.length_le_of_not_lt hlong) hgrow⟩
        · rw [if_neg hgrow]
          exact .inr ⟨rfl, fun q hq => by simp at hq⟩
  · rw [if_pos hstate]
    refine .inr ⟨rfl, ?_⟩
    intro q hq
    simpa [Outcome.unchanged] using hq.symm

end Pile

end ObjectPile
