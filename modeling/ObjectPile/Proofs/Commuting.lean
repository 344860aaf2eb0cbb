/-
# Deletes commute

Objects may be deleted in any order. On the way chunks are merged in different ways, the cursor moves
back sooner or later and segments are given up at different times; what is left in the end is the same
but for the order of the chunks on the lists of free ones.

* `Pile.deleteAll` : several objects are deleted one after the other.
* `Sound.outlines_delete` : deleting an object is deleting it from the outlines of the segments.
* `Pile.Alike` : what different orders agree about.
* `Session.deletes_commute` : deletes in any order succeed and lead to piles that are alike.
-/
import ObjectPile.Proofs.Outlines
import ObjectPile.Proofs.Runs

namespace ObjectPile

/-! ## Outlines of piles -/

/-- The outlines after the object of a pointer is deleted. -/
def Outline.deleteAt (policy : AllocationPolicy) (slots : Nat → Option Outline) (q : Pointer) :
    Nat → Option Outline :=
  Function.update slots q.segment (delete policy (slots q.segment) q.offset)

/-- Objects are deleted in any order, in the same segment or in different ones. -/
theorem Outline.deleteAt_comm (policy : AllocationPolicy) (slots : Nat → Option Outline)
    (q r : Pointer) :
    deleteAt policy (deleteAt policy slots q) r = deleteAt policy (deleteAt policy slots r) q := by
  unfold deleteAt
  by_cases hsegment : q.segment = r.segment
  · rw [hsegment]
    simp only [Function.update_self, Function.update_idem]
    rw [delete_comm]
  · rw [Function.update_of_ne (Ne.symm hsegment), Function.update_of_ne hsegment,
      Function.update_comm hsegment]

namespace Pile

variable {p p' : Pile} {q : Pointer} {qs qs' : List Pointer}

/-- The outlines of the segments in the slots. -/
def outlines (p : Pile) (i : Nat) : Option Outline :=
  (p.slot? i).map fun s => s.outline p.policy

/-- Deletes objects one after the other, up to the first that is refused. -/
def deleteAll (p : Pile) : List Pointer → Except PileError Pile
  | [] => .ok p
  | q :: qs =>
    match (p.delete q).result with
    | .error e => .error e
    | .ok () => (p.delete q).pile.deleteAll qs

/-- The slots after an object is deleted. -/
theorem slot?_delete (hview : p.view q (fun _ chunk => chunk) = .ok (some chunk)) {s : Segment}
    (hslot : p.slot? q.segment = some s) (j : Nat) :
    (p.delete q).pile.slot? j =
      if j = q.segment then
        (some (s.release p.policy chunk)).filter fun s => decide (0 < s.liveCount)
      else p.slot? j := by
  have hhere := (slot?_deleteIn hslot chunk q.segment).trans (if_pos rfl)
  unfold Pile.delete
  rw [hview]
  show ((p.deleteIn q.segment chunk).releaseIfEmpty q.segment).1.slot? j = _
  rcases Nat.eq_zero_or_pos (s.release p.policy chunk).liveCount with hzero | hpos
  · rw [releaseIfEmpty_of_eq_zero hhere hzero, Option.filter_some_neg (by simp [hzero])]
    refine (join_vacate _ q.segment j).trans ?_
    split
    · rfl
    · rename_i hj
      exact (slot?_deleteIn hslot chunk j).trans (if_neg hj)
  · rw [releaseIfEmpty_of_pos hhere hpos, Option.filter_some_pos (by simpa using hpos)]
    exact slot?_deleteIn hslot chunk j

/-- Deleting does not touch the hint. -/
theorem putHint_delete (p : Pile) (q : Pointer) : (p.delete q).pile.putHint = p.putHint := by
  have hrelease : ∀ (p : Pile) (i : Nat), (p.releaseIfEmpty i).1.putHint = p.putHint := by
    intro p i
    unfold releaseIfEmpty
    split <;> rfl
  unfold Pile.delete
  split
  · rfl
  · rfl
  · exact hrelease _ _

/-- **Deleting an object is deleting it from the outlines.** -/
theorem Sound.outlines_delete (h : p.Sound) (hstate : p.state = .started)
    (hlookup : (p.lookup q).isSome) :
    (p.delete q).pile.outlines = Outline.deleteAt p.policy p.outlines q := by
  obtain ⟨⟨payload, version⟩, hlookup⟩ := Option.isSome_iff_exists.1 hlookup
  obtain ⟨s, chunk, hslot, hresolve, -, -, -, hview⟩ :=
    view_of_lookup_eq_some (fun _ chunk => chunk) hstate hlookup
  have hpolicy := (h.delete hstate hlookup).2.frame.policy_eq
  have hreach := h.reachable _ s hslot
  have hrelease := hreach.outline_release h.policy hresolve
  have hinUse := (hreach.release hresolve).isInUse_outline h.policy
  funext j
  unfold outlines Outline.deleteAt
  rw [hpolicy, slot?_delete hview hslot, Function.update_apply]
  split
  · unfold Outline.delete
    simp only [hslot, Option.map_some, ← hrelease]
    rcases Nat.eq_zero_or_pos (s.release p.policy chunk).liveCount with hzero | hpos
    · rw [Option.filter_some_neg (by simp [hzero]), Option.filter_some_neg (by simp [hinUse, hzero])]
      rfl
    · rw [Option.filter_some_pos (by simpa using hpos),
        Option.filter_some_pos (by simpa [hinUse] using hpos)]
      rfl
  · rfl

/-! ## Several deletes -/

/-- What deleting several objects does to a pile. -/
structure DeletedAll (p p' : Pile) (qs : List Pointer) : Prop where
  sound : p'.Sound
  frame : p.SameFrame p'
  nextGeneration_eq : p'.nextGeneration = p.nextGeneration
  putHint_eq : p'.putHint = p.putHint
  outlines_eq : p'.outlines = qs.foldl (Outline.deleteAt p.policy) p.outlines

theorem SameFrame.trans {p'' : Pile} (h : p.SameFrame p') (h' : p'.SameFrame p'') :
    p.SameFrame p'' where
  id_eq := h'.id_eq.trans h.id_eq
  name_eq := h'.name_eq.trans h.name_eq
  settings_eq := h'.settings_eq.trans h.settings_eq
  policy_eq := h'.policy_eq.trans h.policy_eq
  state_eq := h'.state_eq.trans h.state_eq

/-- Deleting an object leaves the other ones. -/
theorem DeletedAt.isSome_lookup (h : p.DeletedAt p' q) (hnot : q ∉ qs)
    (hlive : ∀ r ∈ qs, (p.lookup r).isSome) : ∀ r ∈ qs, (p'.lookup r).isSome := by
  intro r hr
  have hne : r ≠ q := fun heq => hnot (heq ▸ hr)
  rw [h.lookup_eq, Function.update_of_ne hne]
  exact hlive r hr

/-- **Different objects are deleted one after the other without being refused.** -/
theorem Sound.deleteAll (h : p.Sound) (hstate : p.state = .started) (hnodup : qs.Nodup)
    (hlive : ∀ q ∈ qs, (p.lookup q).isSome) :
    ∃ p', p.deleteAll qs = .ok p' ∧ p.DeletedAll p' qs := by
  induction qs generalizing p with
  | nil => exact ⟨p, rfl, h, ⟨rfl, rfl, rfl, rfl, rfl⟩, rfl, rfl, rfl⟩
  | cons q qs ih =>
    have hq := hlive q List.mem_cons_self
    have houtlines := h.outlines_delete hstate hq
    obtain ⟨⟨payload, version⟩, hlookup⟩ := Option.isSome_iff_exists.1 hq
    obtain ⟨hresult, hdeleted⟩ := h.delete hstate hlookup
    obtain ⟨hnot, hnodup⟩ := List.nodup_cons.1 hnodup
    have hlive' := hdeleted.isSome_lookup hnot fun r hr => hlive r (List.mem_cons_of_mem _ hr)
    obtain ⟨p', hall, hp'⟩ :=
      ih hdeleted.sound (hdeleted.frame.state_eq.trans hstate) hnodup hlive'
    refine ⟨p', ?_, hp'.sound, hdeleted.frame.trans hp'.frame,
      hp'.nextGeneration_eq.trans hdeleted.nextGeneration_eq,
      hp'.putHint_eq.trans (putHint_delete p q), ?_⟩
    · unfold Pile.deleteAll
      rw [hresult]
      exact hall
    · rw [hp'.outlines_eq, houtlines, hdeleted.frame.policy_eq]
      rfl

/-- The outlines do not depend on the order of the deletes. -/
theorem DeletedAll.outlines_eq_of_perm {a b : Pile} (ha : p.DeletedAll a qs)
    (hb : p.DeletedAll b qs') (hperm : qs.Perm qs') : b.outlines = a.outlines := by
  rw [ha.outlines_eq, hb.outlines_eq]
  exact (hperm.foldl_eq' (fun q _ r _ slots => Outline.deleteAt_comm p.policy slots q r) _).symm

/-! ## Piles that are alike -/

/-- **Piles that are alike** but for the order and the choice of the chunks on the lists of their
segments. -/
structure Alike (p p' : Pile) : Prop where
  frame : p.SameFrame p'
  nextGeneration_eq : p'.nextGeneration = p.nextGeneration
  putHint_eq : p'.putHint = p.putHint
  objectCount_eq : p'.objectCount = p.objectCount
  utilizedBytes_eq : p'.utilizedBytes = p.utilizedBytes
  segmentCount_eq : p'.segmentCount = p.segmentCount
  size_eq : p'.slots.size = p.slots.size
  /-- The same slots are occupied, and by segments that are alike. -/
  slot : ∀ i, Option.Rel Segment.Alike (p.slot? i) (p'.slot? i)

/-- In all slots the lists of the segments have the same lengths. -/
def SameLengths (p p' : Pile) : Prop :=
  ∀ i, Option.Rel (fun s s' => ∀ j, (s'.freeList j).length = (s.freeList j).length) (p.slot? i)
    (p'.slot? i)

/-- Tables that are trimmed and have the same vacant slots are equally long. -/
theorem size_eq_of_trimmed {slots slots' : Array (Option Segment)} (h : Trimmed slots)
    (h' : Trimmed slots')
    (hvacant : ∀ i : Nat, slots'[i]?.join.isSome = slots[i]?.join.isSome) :
    slots'.size = slots.size := by
  -- the last slot of either table is occupied, so the other table reaches as far
  have hle : ∀ a b : Array (Option Segment), Trimmed a →
      (∀ i : Nat, b[i]?.join.isSome = a[i]?.join.isSome) → a.size ≤ b.size := by
    intro a b ha hab
    rcases Nat.eq_zero_or_pos a.size with hzero | hpos
    · omega
    · have hlt : a.size - 1 < a.size := by omega
      have hlast := hab (a.size - 1)
      unfold Trimmed at ha
      rw [Array.back?_eq_getElem?, Array.getElem?_eq_getElem hlt] at ha
      rw [Array.getElem?_eq_getElem hlt] at hlast
      cases hslot : a[a.size - 1] with
      | none => exact absurd (congrArg some hslot) ha
      | some s =>
        rw [hslot] at hlast
        by_contra hshort
        rw [Array.getElem?_eq_none (by omega)] at hlast
        simp at hlast
  exact Nat.le_antisymm (hle _ _ h' fun i => (hvacant i).symm) (hle _ _ h hvacant)

/-- Sums over tables of the same size agree if they agree slot by slot. -/
theorem total_eq_of_slots {slots slots' : Array (Option Segment)} (figure : Segment → Nat)
    (hsize : slots'.size = slots.size)
    (hslot : ∀ i : Nat, slots'[i]?.join.elim 0 figure = slots[i]?.join.elim 0 figure) :
    total figure slots' = total figure slots := by
  unfold total
  congr 1
  refine List.ext_getElem (by simpa using hsize) ?_
  intro i hi hi'
  simp only [List.length_map, Array.length_toList] at hi hi'
  have hfigure := hslot i
  rw [Array.getElem?_eq_getElem hi, Array.getElem?_eq_getElem hi'] at hfigure
  simpa using hfigure

/-- Sound piles with alike segments in the same slots have tables of the same size and the same
figures. -/
theorem Sound.figures_eq_of_alike (h : p.Sound) (h' : p'.Sound)
    (hslot : ∀ i, Option.Rel Segment.Alike (p.slot? i) (p'.slot? i)) :
    p'.slots.size = p.slots.size ∧ p'.objectCount = p.objectCount ∧
      p'.utilizedBytes = p.utilizedBytes ∧ p'.segmentCount = p.segmentCount := by
  have hvacant : ∀ i : Nat, p'.slots[i]?.join.isSome = p.slots[i]?.join.isSome := by
    intro i
    have hrel := hslot i
    unfold slot? at hrel
    generalize p.slots[i]?.join = slot at *
    generalize p'.slots[i]?.join = slot' at *
    cases hrel <;> rfl
  have hsize := size_eq_of_trimmed h.trimmed h'.trimmed hvacant
  have htotal : ∀ figure : Segment → Nat, (∀ s s', s.Alike s' → figure s' = figure s) →
      total figure p'.slots = total figure p.slots := by
    intro figure hfigure
    refine total_eq_of_slots figure hsize ?_
    intro i
    have hrel := hslot i
    unfold slot? at hrel
    generalize p.slots[i]?.join = slot at *
    generalize p'.slots[i]?.join = slot' at *
    cases hrel with
    | none => rfl
    | some halike => exact hfigure _ _ halike
  refine ⟨hsize, ?_, ?_, ?_⟩
  · rw [h.objectCount_eq, h'.objectCount_eq]
    exact htotal _ fun s s' halike => halike.liveCount_eq
  · rw [h.utilizedBytes_eq, h'.utilizedBytes_eq]
    refine htotal _ ?_
    intro s s' halike
    unfold Segment.storedBytes Segment.liveChunks
    rw [halike.chunks_eq]
  · rw [h.segmentCount_eq, h'.segmentCount_eq, occupied_eq_total, occupied_eq_total]
    exact htotal _ fun _ _ _ => rfl

/-- Sound piles with the same outlines are alike. -/
theorem Sound.alike (h : p.Sound) (h' : p'.Sound) (hframe : p.SameFrame p')
    (hgeneration : p'.nextGeneration = p.nextGeneration) (hhint : p'.putHint = p.putHint)
    (houtlines : p'.outlines = p.outlines) : p.Alike p' := by
  have hslot : ∀ i, Option.Rel Segment.Alike (p.slot? i) (p'.slot? i) := by
    intro i
    have houtline := congrFun houtlines i
    unfold outlines at houtline
    cases hs : p.slot? i with
    | none =>
      rw [hs, Option.map_none, Option.map_eq_none_iff] at houtline
      rw [houtline]
      exact .none
    | some s =>
      rw [hs, Option.map_some, Option.map_eq_some_iff] at houtline
      obtain ⟨s', hs', heq⟩ := houtline
      rw [hs']
      have hreach' := h'.reachable i s' hs'
      rw [hframe.policy_eq] at hreach'
      exact .some ((h.reachable i s hs).alike h.policy hreach' (congrArg Outline.chunks heq))
  obtain ⟨hsize, hobjects, hbytes, hsegments⟩ := h.figures_eq_of_alike h' hslot
  exact ⟨hframe, hgeneration, hhint, hobjects, hbytes, hsegments, hsize, hslot⟩

/-- Sound piles with the same outlines have lists of the same lengths, where speed is favoured or the
lists are long enough. -/
theorem Sound.sameLengths (h : p.Sound) (h' : p'.Sound) (hframe : p.SameFrame p')
    (houtlines : p'.outlines = p.outlines)
    (hlong : p.policy.mode = .favorSpeed ∨ p.policy.LongLists) : p.SameLengths p' := by
  intro i
  have houtline := congrFun houtlines i
  unfold outlines at houtline
  rw [hframe.policy_eq] at houtline
  cases hs : p.slot? i with
  | none =>
    rw [hs, Option.map_none, Option.map_eq_none_iff] at houtline
    rw [houtline]
    exact .none
  | some s =>
    rw [hs, Option.map_some, Option.map_eq_some_iff] at houtline
    obtain ⟨s', hs', heq⟩ := houtline
    rw [hs']
    have hreach' := h'.reachable i s' hs'
    rw [hframe.policy_eq] at hreach'
    exact .some ((h.reachable i s hs).length_eq h.policy hreach' heq hlong)

end Pile

namespace Session

/-- **Deletes commute.** Whenever a pile is started, deleting different live objects succeeds in every
order, and the piles that different orders lead to are alike. So are the lengths of the lists, where
speed is favoured or each list may hold as many chunks as a segment has stretches of 32 bytes. -/
theorem deletes_commute {p : Pile} (hnew : p.IsNew) {ops : List Operation}
    (htyped : ∀ op ∈ ops, op.IsTyped) (hputs : ((new p).run ops).issued.length < maxWord)
    (hstate : ((new p).run ops).pile.state = .started) {qs qs' : List Pointer} (hnodup : qs.Nodup)
    (hlive : ∀ q ∈ qs, (((new p).run ops).pile.lookup q).isSome) (hperm : qs.Perm qs') :
    ∃ a b, ((new p).run ops).pile.deleteAll qs = .ok a ∧
      ((new p).run ops).pile.deleteAll qs' = .ok b ∧ a.Alike b ∧
        (((new p).run ops).pile.settings.allocMode = .favorSpeed ∨
          ((new p).run ops).pile.settings.segmentSize / 32 ≤
            ((new p).run ops).pile.settings.freeListSize → a.SameLengths b) := by
  have hsound := ((sound_new hnew).run htyped hputs).pile
  generalize ((new p).run ops).pile = started at *
  obtain ⟨a, hqs, ha⟩ := hsound.deleteAll hstate hnodup hlive
  obtain ⟨b, hqs', hb⟩ := hsound.deleteAll hstate (hperm.nodup_iff.1 hnodup)
    fun q hq => hlive q (hperm.mem_iff.2 hq)
  have houtlines := ha.outlines_eq_of_perm hb hperm
  have hframe : a.SameFrame b := ⟨hb.frame.id_eq.trans ha.frame.id_eq.symm,
    hb.frame.name_eq.trans ha.frame.name_eq.symm,
    hb.frame.settings_eq.trans ha.frame.settings_eq.symm,
    hb.frame.policy_eq.trans ha.frame.policy_eq.symm,
    hb.frame.state_eq.trans ha.frame.state_eq.symm⟩
  refine ⟨a, b, hqs, hqs', ha.sound.alike hb.sound hframe
    (hb.nextGeneration_eq.trans ha.nextGeneration_eq.symm)
    (hb.putHint_eq.trans ha.putHint_eq.symm) houtlines, ?_⟩
  intro hlong
  refine ha.sound.sameLengths hb.sound hframe houtlines ?_
  rw [ha.frame.policy_eq, hsound.policy_eq]
  exact hlong

/-- A run that fills a segment with one object and stores three more in another segment. -/
def spread : List Operation :=
  [.configure { segmentSize := some 65536, freeChunkSizes := some (.list [16, 65504]) }, .start,
    .put (List.replicate 17 7) .raw, .put [1, 2, 3] .raw, .put [] .raw, .put [4] .raw]

/-- One order merges a chunk with the one before and gives a segment up at the end, the other order
gives it up at the start and merges a chunk with the one after. -/
theorem deletes_of_spread :
    ∃ a b, ((new (.create 1 none)).run spread).pile.deleteAll
        [⟨1, 1, 0, 2⟩, ⟨1, 1, 32, 3⟩, ⟨1, 0, 0, 1⟩] = .ok a ∧
      ((new (.create 1 none)).run spread).pile.deleteAll
        [⟨1, 0, 0, 1⟩, ⟨1, 1, 32, 3⟩, ⟨1, 1, 0, 2⟩] = .ok b ∧ a.Alike b ∧ a.SameLengths b := by
  have htyped : ∀ op ∈ spread, op.IsTyped := by decide
  have hnodup : [(⟨1, 1, 0, 2⟩ : Pointer), ⟨1, 1, 32, 3⟩, ⟨1, 0, 0, 1⟩].Nodup := by decide
  have hperm : [(⟨1, 1, 0, 2⟩ : Pointer), ⟨1, 1, 32, 3⟩, ⟨1, 0, 0, 1⟩].Perm
      [⟨1, 0, 0, 1⟩, ⟨1, 1, 32, 3⟩, ⟨1, 1, 0, 2⟩] := by decide
  obtain ⟨a, b, hqs, hqs', halike, hlengths⟩ :=
    deletes_commute (Pile.isNew_create 1 none) htyped (by decide +kernel) (by decide +kernel)
      hnodup (by decide +kernel) hperm
  exact ⟨a, b, hqs, hqs', halike, hlengths (.inr (by decide +kernel))⟩

end Session

end ObjectPile
