/-
# Deleting undoes putting

Where space is reused, an object that is deleted right after it was put leaves no trace but the
generation that it used up. A chunk that was cut is made whole again, whether or not its rest was on
a list; a chunk that was taken whole goes back to its list, which has room for it as it was there
before; bytes from behind the cursor return there; and a segment that was added is given up. All of
that rests on the rows of chunks being spaced, so that nothing but the rest of the chunk is merged
with it.

* `Represents.release_of_offers` : releasing the chunk in hand gives the place back that was taken.
* `Segment.Restored`, `Pile.Restored` : what deleting brings back.
* `Reachable.restored` : releasing what was just stored restores a segment.
* `Session.delete_undoes_put` : deleting what was just put restores a pile.
-/
import ObjectPile.Proofs.SinglePass

namespace ObjectPile

/-! ## Lists -/

namespace Segment

variable {policy : AllocationPolicy} {lists : Nat → List Nat} {o size : Nat}

/-- A chunk that is filed, or not for want of room, and taken off again leaves the lists. -/
theorem unlinkFrom_fileOn (policy : AllocationPolicy) (size : Nat) (hnot : ∀ i, o ∉ lists i) :
    unlinkFrom (fileOn policy lists o size) o = lists := by
  funext i
  unfold unlinkFrom fileOn
  split
  · exact List.erase_of_not_mem (hnot i)
  · rw [Function.update_apply]
    split
    · rename_i heq
      rw [heq, List.erase_cons_head]
    · exact List.erase_of_not_mem (hnot i)

/-- A chunk that is taken off its list and filed again is back on it: the list had room for it. -/
theorem perm_fileOn_unlinkFrom (hbounded : ∀ i, (lists i).length ≤ policy.freeListSize)
    (hmem : o ∈ lists (policy.classes.listForChunk size))
    (honly : ∀ i, o ∈ lists i → i = policy.classes.listForChunk size) (i : Nat) :
    (fileOn policy (unlinkFrom lists o) o size i).Perm (lists i) := by
  have hroom : ¬policy.freeListSize ≤
      (unlinkFrom lists o (policy.classes.listForChunk size)).length := by
    have hpos := List.length_pos_of_mem hmem
    have hle := hbounded (policy.classes.listForChunk size)
    unfold unlinkFrom
    rw [List.length_erase_of_mem hmem]
    omega
  unfold fileOn
  rw [if_neg hroom, Function.update_apply]
  split
  · rename_i heq
    rw [heq]
    exact (List.perm_cons_erase hmem).symm
  · rename_i hne
    exact List.Perm.of_eq (List.erase_of_not_mem fun ho => hne (honly i ho))

end Segment

/-! ## Between chunks that are not free -/

/-- In a spaced row a free chunk lies between two that are not free, or at the start in front of one. -/
theorem Spaced.neighbours {pre post : List Chunk} {d : Chunk}
    (h : Spaced true (pre ++ d :: post)) (hd : d.content = .free) :
    post ≠ [] ∧ (∀ c ∈ post.head?, c.content ≠ .free) ∧ ∀ c ∈ pre.getLast?, c.content ≠ .free := by
  have hfree : d.isFree = true := d.isFree_eq_true_iff.2 hd
  have hahead := ((spaced_append true pre _).1 h).2.1 hfree
  refine ⟨?_, ?_, ?_⟩
  · rintro rfl
    exact Bool.noConfusion hahead
  · intro c hc
    rw [freeAhead, hc] at hahead
    exact Chunk.isFree_eq_false_iff.1 hahead
  · intro c hc hcfree
    obtain ⟨before, rfl⟩ := List.getLast?_eq_some_iff.1 hc
    rw [List.append_assoc] at h
    have hnot := h.isFree_eq_false (c.isFree_eq_true_iff.2 hcfree)
    exact Bool.noConfusion (hfree.symm.trans hnot)

namespace Hand

variable {policy : AllocationPolicy} {h : Hand}

theorem withNext_eq_self (hafter : ∀ d ∈ h.after.head?, d.content ≠ .free) : h.withNext = h := by
  rcases h.withNext_cases with ⟨d, after, hd, hfree, -⟩ | ⟨-, heq⟩
  · exact absurd hfree (hafter d (by rw [hd]; rfl))
  · exact heq

theorem withPrevious_eq_self (hbefore : ∀ d ∈ h.before.head?, d.content ≠ .free) :
    h.withPrevious = h := by
  rcases h.withPrevious_cases with ⟨d, before, hd, hfree, -⟩ | ⟨-, heq⟩
  · exact absurd hfree (hbefore d (by rw [hd]; rfl))
  · exact heq

/-- **What is cut off a chunk comes back when it is merged with the chunk after.** -/
theorem withNext_cut (policy : AllocationPolicy) {request : ChunkRequest}
    (hfits : request.chunkSize ≤ h.size) (hnot : ∀ i, h.start + request.chunkSize ∉ h.lists i)
    (hafter : ∀ d ∈ h.after.head?, d.content ≠ .free) : (h.cut policy request).withNext = h := by
  rcases h.cut_cases policy request with ⟨-, -, heq⟩ | ⟨-, heq⟩
  · rw [heq]
    unfold withNext
    simp only
    rw [Segment.unlinkFrom_fileOn policy _ hnot, Nat.add_sub_cancel' hfits]
  · rw [heq]
    exact withNext_eq_self hafter

/-- **Bytes from behind the cursor return there.** -/
theorem release_last {v : View} (hmode : policy.mode = .reuseSpace) (hspaced : Spaced true v.chunks)
    (start size : Nat) : release policy ⟨v.chunks.reverse, start, size, [], v.lists⟩ = v := by
  have hbefore : ∀ d ∈ v.chunks.reverse.head?, d.content ≠ .free := by
    intro d hd hfree
    rw [List.head?_reverse] at hd
    obtain ⟨before, hrow⟩ := List.getLast?_eq_some_iff.1 hd
    rw [hrow] at hspaced
    exact (hspaced.neighbours hfree).1 rfl
  unfold release
  rw [hmode]
  simp only
  rw [withNext_eq_self (by simp), withPrevious_eq_self hbefore]
  unfold finish
  rw [if_pos rfl, List.reverse_reverse]

end Hand

/-! ## The chunk in hand is given back -/

namespace Segment

variable {policy : AllocationPolicy} {s s' : Segment} {v : View} {placement : Placement}
  {hand : Hand} {request : ChunkRequest}

/-- No chunk on the lists starts inside another chunk. -/
theorem Represents.not_mem_of_lt (hp : policy.Sound) (h : Represents policy s v) {d : Chunk}
    (hd : d ∈ v.chunks) {o : Nat} (hlt : d.start < o) (hle : o < d.stop) (i : Nat) :
    o ∉ v.lists i := by
  intro ho
  obtain ⟨c, hc, rfl⟩ := h.listed.exists_start ho
  have hsize := h.carved.size_ge hp hc
  have happ := h.carved.tiling.apart hc hd (by omega)
  unfold Chunk.stop at *
  omega

/-- No chunk on the lists starts where a free chunk ends. -/
theorem Represents.stop_not_mem (hp : policy.Sound) (h : Represents policy s v)
    (hspaced : Spaced true v.chunks) {d : Chunk} (hd : d ∈ v.chunks) (hfree : d.content = .free)
    (i : Nat) : d.stop ∉ v.lists i := by
  intro ho
  obtain ⟨c, hc, hstart, hcfree, -⟩ := h.listed.free_of_mem i _ ho
  have hnot := h.isFree_eq_false_of_stop_eq hp hspaced hd hc hstart.symm
    (d.isFree_eq_true_iff.2 hfree)
  exact Chunk.isFree_eq_false_iff.1 hnot hcfree

/-- **A free chunk that was taken is given back**, whole and to the list that it was on. -/
theorem Represents.release_of_reuse (hp : policy.Sound) (hmode : policy.mode = .reuseSpace)
    (h : Represents policy s v) (hspaced : Spaced true v.chunks) {pre post : List Chunk} {d : Chunk}
    (hchunks : v.chunks = pre ++ d :: post) (hfree : d.content = .free)
    (hpos : 0 < request.chunkSize) (hfits : request.chunkSize ≤ d.size) {i : Nat}
    (hlisted : d.start ∈ v.lists i) :
    let taken : Hand := ⟨pre.reverse, d.start, d.size, post, unlinkFrom v.lists d.start⟩
    ((taken.cut policy request).release policy).chunks = v.chunks ∧
      ∀ j, (((taken.cut policy request).release policy).lists j).Perm (v.lists j) := by
  intro taken
  have hd : d ∈ v.chunks := by simp [hchunks]
  have hnot : ∀ j, d.start + request.chunkSize ∉ unlinkFrom v.lists d.start j := by
    intro j hmem
    have hmem := List.mem_of_mem_erase hmem
    rcases Nat.lt_or_eq_of_le hfits with hlt | heq
    · exact h.not_mem_of_lt hp hd (by omega) (Nat.add_lt_add_left hlt _) j hmem
    · rw [heq] at hmem
      exact h.stop_not_mem hp hspaced hd hfree j hmem
  have honly : ∀ j, d.start ∈ v.lists j → j = policy.classes.listForChunk d.size := by
    intro j hj
    obtain ⟨c, hc, hstart, -, hlist, -⟩ := h.listed.free_of_mem j _ hj
    obtain rfl := h.carved.eq_of_start_eq hp hc hd hstart
    exact hlist.symm
  rw [hchunks] at hspaced
  obtain ⟨hne, hafter, hbefore⟩ := hspaced.neighbours hfree
  -- the rest comes back, the chunk before stays, and there is one after
  have hrelease : (taken.cut policy request).release policy = taken.addFree policy := by
    unfold Hand.release
    rw [hmode]
    simp only
    rw [Hand.withNext_cut policy hfits hnot hafter,
      Hand.withPrevious_eq_self (by simpa [taken] using hbefore)]
    exact if_neg hne
  rw [hrelease]
  refine ⟨?_, perm_fileOn_unlinkFrom h.listed.bounded (honly i hlisted ▸ hlisted) honly⟩
  rw [hchunks]
  obtain ⟨start, size, content⟩ := d
  obtain rfl : content = .free := hfree
  simp [taken, Hand.addFree, Hand.put]

/-- **Releasing the chunk in hand gives the place back that was taken**: the row of chunks is as it
was before, and so are the lists but for their order. -/
theorem Represents.release_of_offers (hp : policy.Sound) (hmode : policy.mode = .reuseSpace)
    (h : Represents policy s v) (hspaced : Spaced true v.chunks) {n : Nat}
    (ho : v.Offers policy (policy.classes.classify n) placement hand)
    (hlisted : ∀ o, placement = .reuse o → ∃ i, o ∈ v.lists i) :
    (hand.release policy).chunks = v.chunks ∧
      ∀ i, ((hand.release policy).lists i).Perm (v.lists i) := by
  have hroom := (h.chunkSize_bounds hp ho).2.2
  unfold headerSize at hroom
  cases ho with
  | reuse hchunks hfree hfits =>
    obtain ⟨i, hi⟩ := hlisted _ rfl
    exact h.release_of_reuse hp hmode hspaced hchunks hfree (by omega) hfits hi
  | extend hfits =>
    rw [Hand.release_last hmode hspaced]
    exact ⟨rfl, fun i => List.Perm.refl _⟩

/-- A chunk that was filled is in hand again when it is released. -/
theorem Represents.view_release (hp : policy.Sound) {generation : Nat} {version : CodecVersion}
    {payload : List UInt8} (h : Represents policy s (hand.put (.live generation version payload)))
    (hlone : hand.Lone) (hroom : headerSize ≤ hand.size) {chunk : LiveChunk}
    (hresolve : s.resolve? hand.start generation = some chunk) :
    (s.release policy chunk).view = hand.release policy := by
  have hlive := (h.resolve?_of_live (c := ⟨hand.start, hand.size, .live generation version payload⟩)
    (by simp [Hand.put]) hroom rfl).1
  obtain rfl := Option.some.inj (hresolve.symm.trans hlive)
  have hreleased : Represents policy
      (s.release policy ⟨hand.start, hand.size, payload.length, version⟩)
      (Hand.release policy
        ⟨hand.before.reverse.reverse, hand.start, hand.size, hand.after, hand.lists⟩) :=
    h.release (d := ⟨hand.start, hand.size, .live generation version payload⟩) hp rfl
      (Hand.settled_put hlone (by simp)) rfl rfl
  rw [List.reverse_reverse] at hreleased
  exact hreleased.view_eq hp (Hand.settled_release policy hlone)

/-! ## Segments -/

/-- **A segment as it was** but for the order of the chunks on its lists and the bytes that belong to
no payload. -/
structure Restored (s s' : Segment) : Prop extends s.Alike s' where
  listed_perm : ∀ i, (s'.listed i).Perm (s.listed i)
  length_eq : ∀ i, (s'.freeList i).length = (s.freeList i).length

theorem Restored.refl (s : Segment) : s.Restored s :=
  ⟨⟨rfl, rfl, fun _ => rfl, rfl, rfl⟩, fun _ => List.Perm.refl _, fun _ => rfl⟩

/-- **Where space is reused, releasing what was just stored restores the segment.** -/
theorem Reachable.restored (hp : policy.Sound) (hmode : policy.mode = .reuseSpace)
    (h : Reachable policy s) {payload : List UInt8} {version : CodecVersion}
    {generation offset : Nat} (hgen : generation ≠ 0) (hmax : generation ≤ maxWord)
    (hstore : s.store? policy (policy.classes.classify payload.length) payload version generation =
      some (offset, s')) {chunk : LiveChunk}
    (hresolve : s'.resolve? offset generation = some chunk) :
    s.Restored (s'.release policy chunk) := by
  have hreach' := (h.store hgen hmax hstore).release hresolve
  obtain ⟨hrep, hsettled⟩ := h.represents_view hp
  obtain ⟨hrep', -⟩ := hreach'.represents_view hp
  obtain ⟨placement, hand, hplace, ho, rfl, rfl⟩ := hrep.exists_place hp hstore
  have hlisted : ∀ o, placement = .reuse o → ∃ i, o ∈ s.view.lists i := by
    rintro o rfl
    exact hrep.mem_of_place? hp hmode hplace
  obtain ⟨hchunks, hlists⟩ := hrep.release_of_offers hp hmode (h.spaced hp hmode) ho hlisted
  -- the chunk that is released is the one that was in hand
  have hroom := Nat.le_trans (hrep.chunkSize_bounds hp ho).2.2 ho.le_size
  rw [← ho.start_eq] at hresolve
  have hview := (hrep.storeAt hp ho version hgen hmax).view_release hp (ho.lone hsettled)
    (Nat.le_of_add_left_le hroom) hresolve
  generalize (s.storeAt policy (policy.classes.classify payload.length) placement payload version
    generation).release policy chunk = t at *
  have hchunks' : t.chunks = s.chunks := (congrArg View.chunks hview).trans hchunks
  have hlisted' : t.listed = (hand.release policy).lists := congrArg View.lists hview
  have hperm : ∀ i, (t.listed i).Perm (s.listed i) := by
    intro i
    rw [hlisted']
    exact hlists i
  refine ⟨h.alike hp hreach' hchunks', hperm, ?_⟩
  intro i
  rw [hrep.listed.length, hrep'.listed.length]
  exact (hperm i).length_eq

end Segment

/-! ## Piles -/

namespace Pile

variable {p p' : Pile} {payload : List UInt8} {version : CodecVersion}

/-- **A pile as it was** but for the next generation, which is one further, and the slot to ask first:
the same slots are occupied by segments as they were, and the same pointers lead to the same
payloads. -/
structure Restored (p p' : Pile) : Prop where
  frame : p.SameFrame p'
  nextGeneration_eq : p'.nextGeneration = p.nextGeneration + 1
  objectCount_eq : p'.objectCount = p.objectCount
  utilizedBytes_eq : p'.utilizedBytes = p.utilizedBytes
  segmentCount_eq : p'.segmentCount = p.segmentCount
  size_eq : p'.slots.size = p.slots.size
  slot : ∀ i, Option.Rel Segment.Restored (p.slot? i) (p'.slot? i)
  lookup_eq : p'.lookup = p.lookup

/-- **Deleting what was just stored restores the pile**, be it stored in a segment that had live
chunks or in one that was empty and had no slot. -/
theorem PutAt.restored (h : p.Sound) (hmode : p.policy.mode = .reuseSpace)
    (hmax : p.nextGeneration ≤ maxWord) {i offset : Nat} {s s' : Segment}
    (hput : p.PutAt p' (p.nextPointer i offset) payload version)
    (hreach : Segment.Reachable p.policy s)
    (hold : p.slot? i = (some s).filter fun s => decide (0 < s.liveCount))
    (hstore : s.store? p.policy (p.policy.classes.classify payload.length) payload version
      p.nextGeneration = some (offset, s'))
    (hslot : ∀ j, p'.slot? j = if j = i then some s' else p.slot? j) :
    (p'.delete (p.nextPointer i offset)).result = .ok () ∧
      p.Restored (p'.delete (p.nextPointer i offset)).pile := by
  have hlookup : p'.lookup (p.nextPointer i offset) = some (payload, version) := by
    rw [hput.lookup_eq, Function.update_self]
  have hstate := hput.frame.state_eq.trans hput.started
  obtain ⟨hresult, hdeleted⟩ := hput.sound.delete hstate hlookup
  obtain ⟨t, chunk, ht, hresolve, -, -, -, hview⟩ :=
    view_of_lookup_eq_some (fun _ chunk => chunk) hstate hlookup
  obtain rfl : s' = t := Option.some.inj (((hslot i).trans (if_pos rfl)).symm.trans ht)
  have hne : p.nextGeneration ≠ 0 := Nat.ne_of_gt h.generation_pos
  have hrestored := hreach.restored h.policy hmode hne hmax hstore hresolve
  have hsegment : (p.nextPointer i offset).segment = i := rfl
  have hslots : ∀ j, Option.Rel Segment.Restored (p.slot? j)
      ((p'.delete (p.nextPointer i offset)).pile.slot? j) := by
    intro j
    rw [slot?_delete hview ht, hput.frame.policy_eq, hsegment]
    by_cases hj : j = i
    · -- the segment is given up exactly if the slot was vacant before
      rw [hj, if_pos rfl, hold]
      have hcount := hrestored.liveCount_eq
      rcases Nat.eq_zero_or_pos s.liveCount with hzero | hpos
      · rw [Option.filter_some_neg (by simp [hzero]), Option.filter_some_neg (by simp [hcount, hzero])]
        exact .none
      · rw [Option.filter_some_pos (by simpa using hpos),
          Option.filter_some_pos (by simpa [hcount] using hpos)]
        exact .some hrestored
    · rw [if_neg hj, hslot, if_neg hj]
      cases p.slot? j with
      | none => exact .none
      | some s => exact .some (Segment.Restored.refl s)
  have halike : ∀ j, Option.Rel Segment.Alike (p.slot? j)
      ((p'.delete (p.nextPointer i offset)).pile.slot? j) := by
    intro j
    have hrel := hslots j
    generalize p.slot? j = slot at *
    generalize (p'.delete (p.nextPointer i offset)).pile.slot? j = slot' at *
    cases hrel with
    | none => exact .none
    | some hrestored => exact .some hrestored.toAlike
  obtain ⟨hsize, hobjects, hbytes, hsegments⟩ := h.figures_eq_of_alike hdeleted.sound halike
  have hunknown : p.lookup (p.nextPointer i offset) = none := by
    rw [← Option.not_isSome_iff_eq_none]
    intro hsome
    exact Nat.lt_irrefl _ (h.generation_lt _ hsome)
  refine ⟨hresult, hput.frame.trans hdeleted.frame,
    hdeleted.nextGeneration_eq.trans hput.nextGeneration_eq, hobjects, hbytes, hsegments, hsize,
    hslots, ?_⟩
  rw [hdeleted.lookup_eq, hput.lookup_eq, Function.update_idem, ← hunknown, Function.update_eq_self]

/-- A put that succeeds on a started pile is one of a payload that is not too long. -/
theorem length_le_of_put (hstate : p.state = .started) {q : Pointer}
    (hput : (p.put payload version).result = .ok q) :
    payload.length ≤ p.settings.maxPayloadLength := by
  by_contra hlong
  unfold Pile.put at hput
  simp only at hput
  rw [if_neg (not_not.2 hstate), if_pos (Nat.lt_of_not_le hlong)] at hput
  simp [Outcome.unchanged] at hput

/-- A put that succeeds on a started pile stores the payload under the pointer that it gives out. -/
theorem Sound.putAt_of_put (h : p.Sound) (hstate : p.state = .started)
    (hmax : p.nextGeneration ≤ maxWord) {q : Pointer}
    (hput : (p.put payload version).result = .ok q) :
    p.PutAt (p.put payload version).pile q payload version := by
  rcases h.put hmax payload version with ⟨q', hresult, hputAt⟩ | ⟨-, hinvalid⟩
  · obtain rfl := Except.ok.inj (hresult.symm.trans hput)
    exact hputAt
  · -- no generation is that of the invalid pointer
    have hrule := h.onePass_put hstate (length_le_of_put hstate hput) version
    rw [hput] at hrule
    have hgeneration := hrule.generation_eq
    have hpos := h.generation_pos
    rw [hinvalid q hput] at hgeneration
    exact absurd hgeneration (Nat.ne_of_lt hpos)

/-- A slot with none vacant before it is not behind the end of the table. -/
theorem le_size_of_isSome {i : Nat} (h : ∀ j < i, (p.slot? j).isSome) : i ≤ p.slots.size := by
  by_contra hlt
  have hsome := h p.slots.size (by omega)
  unfold slot? at hsome
  rw [Array.getElem?_eq_none (Nat.le_refl _)] at hsome
  simp at hsome

/-- **Deleting undoes putting**, wherever the payload went. -/
theorem Sound.delete_put (h : p.Sound) (hstate : p.state = .started)
    (hmode : p.policy.mode = .reuseSpace) (hmax : p.nextGeneration ≤ maxWord) {q : Pointer}
    (hput : (p.put payload version).result = .ok q) :
    ((p.put payload version).pile.delete q).result = .ok () ∧
      p.Restored ((p.put payload version).pile.delete q).pile := by
  have hputAt := h.putAt_of_put hstate hmax hput
  have hrule := h.onePass_put hstate (length_le_of_put hstate hput) version
  rw [hput] at hrule
  generalize (p.put payload version).pile = p' at *
  cases hrule with
  | @stored k offset s' hk hbefore hhere =>
    obtain ⟨s, hslot, hstore⟩ := Option.bind_eq_some_iff.1 hhere
    have hpos := h.liveCount_pos _ s hslot
    refine hputAt.restored h hmode hmax (h.reachable _ s hslot) ?_ hstore ?_
    · rw [hslot, Option.filter_some_pos (by simpa using hpos)]
    · exact slot?_setSlot (Nat.mod_lt _ (Nat.zero_lt_of_lt hk)) s'
  | @added i s' hnone hlimit hmemory hbefore hvacant hstore =>
    refine hputAt.restored h hmode hmax .empty ?_ hstore ?_
    · rw [hvacant, Option.filter_some_neg (by simp [Segment.empty])]
    · exact join_occupy s' (le_size_of_isSome hbefore)

end Pile

namespace Session

/-- **Deleting undoes putting.** Whenever a pile that reuses space is started, an object that is
deleted right after it was put leaves the pile as it was, but for the generation that it used up. -/
theorem delete_undoes_put {p : Pile} (hnew : p.IsNew) {ops : List Operation}
    (htyped : ∀ op ∈ ops, op.IsTyped) (hputs : ((new p).run ops).issued.length < maxWord)
    (hstate : ((new p).run ops).pile.state = .started)
    (hmode : ((new p).run ops).pile.settings.allocMode = .reuseSpace) {payload : List UInt8}
    {version : CodecVersion} {q : Pointer}
    (hput : (((new p).run ops).pile.put payload version).result = .ok q) :
    ((((new p).run ops).pile.put payload version).pile.delete q).result = .ok () ∧
      ((new p).run ops).pile.Restored
        ((((new p).run ops).pile.put payload version).pile.delete q).pile := by
  have hsound := (sound_new hnew).run htyped hputs
  refine hsound.pile.delete_put hstate ?_ ?_ hput
  · rw [hsound.pile.policy_eq]
    exact hmode
  · rw [hsound.nextGeneration_eq]
    exact hputs

/-- A run that leaves a free chunk behind one that is in use. -/
def gapped : List Operation :=
  [.configure { segmentSize := some 65536, freeChunkSizes := some (.list [16, 64, 65440]) }, .start,
    .put (List.replicate 17 7) .raw, .put [1, 2, 3] .raw, .delete ⟨1, 0, 0, 1⟩]

/-- A small payload is cut off the free chunk, and a large one goes into a segment of its own. -/
theorem undoing_of_gapped :
    ((new (.create 1 none)).run gapped).pile.Restored
        ((((new (.create 1 none)).run gapped).pile.put [4] .raw).pile.delete ⟨1, 0, 0, 3⟩).pile ∧
      ((new (.create 1 none)).run gapped).pile.Restored
        ((((new (.create 1 none)).run gapped).pile.put (List.replicate 65 7) .raw).pile.delete
          ⟨1, 1, 0, 3⟩).pile := by
  have htyped : ∀ op ∈ gapped, op.IsTyped := by decide
  have hstarted : ((new (.create 1 none)).run gapped).pile.state = .started ∧
      ((new (.create 1 none)).run gapped).pile.settings.allocMode = .reuseSpace := by
    decide +kernel
  have hissued : ((new (.create 1 none)).run gapped).issued.length < maxWord := by decide +kernel
  have hsmall : (((new (.create 1 none)).run gapped).pile.put [4] .raw).result =
      .ok ⟨1, 0, 0, 3⟩ := by
    decide +kernel
  have hlarge : (((new (.create 1 none)).run gapped).pile.put (List.replicate 65 7) .raw).result =
      .ok ⟨1, 1, 0, 3⟩ := by
    decide +kernel
  have hnew := Pile.isNew_create 1 none
  exact ⟨(delete_undoes_put hnew htyped hissued hstarted.1 hstarted.2 hsmall).2,
    (delete_undoes_put hnew htyped hissued hstarted.1 hstarted.2 hlarge).2⟩

end Session

end ObjectPile
