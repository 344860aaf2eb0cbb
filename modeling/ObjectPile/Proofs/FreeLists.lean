/-
# Lists of free chunks

The lists of a segment are plain lists of offsets of free chunks, and putting a chunk on its list and
taking one off are what they are on plain lists. What the program writes to that end is kept apart
from what it means for the lists.

* `Segment.Listed` : each list of a segment is a plain list of offsets of free chunks.
* `FiledAt`, `UnlinkedAt` : what the lists and the links read as after a chunk is filed or unlinked.
* `Listed.file` : filing puts a chunk on the front of its list unless the list is full.
* `Listed.unlink` : unlinking erases a chunk from its list, from whatever place.
-/
import ObjectPile.Proofs.Links

namespace ObjectPile.Segment

/-! ## The layout stays -/

namespace Carved

variable {policy : AllocationPolicy} {s : Segment} {cs : List Chunk} {chunk : Option Nat}

theorem setNext (hp : policy.Sound) (h : Carved policy s cs)
    (hchunk : ∀ y ∈ chunk, ∃ c ∈ cs, c.start = y ∧ c.isLive = false) (n : Nat) :
    Carved policy (s.setNext chunk n) cs := by
  cases chunk with
  | none => exact h
  | some y =>
    obtain ⟨c, hc, rfl, hlive⟩ := hchunk y rfl
    exact h.setWord hp hc hlive n (.inr (.inl rfl))

theorem setPrevious (hp : policy.Sound) (h : Carved policy s cs)
    (hchunk : ∀ y ∈ chunk, ∃ c ∈ cs, c.start = y ∧ c.isLive = false) (n : Nat) :
    Carved policy (s.setPrevious chunk n) cs := by
  cases chunk with
  | none => exact h
  | some y =>
    obtain ⟨c, hc, rfl, hlive⟩ := hchunk y rfl
    exact h.setWord hp hc hlive n (.inr (.inr rfl))

/-- Filing a chunk that is not live keeps the layout. -/
theorem file (hp : policy.Sound) (h : Carved policy s cs) {d : Chunk} (hd : d ∈ cs)
    (hlive : d.isLive = false)
    (hhead : ∀ i, ∀ y ∈ (s.freeList i).head, ∃ c ∈ cs, c.start = y ∧ c.isLive = false)
    (size : Nat) : Carved policy (s.file policy d.start size) cs := by
  rcases Nat.lt_or_ge (s.freeList (policy.classes.listForChunk size)).length policy.freeListSize
    with hroom | hfull
  · rw [file_of_room s policy _ _ hroom]
    apply Carved.setFreeList
    apply Carved.setPrevious hp _ (hhead _)
    apply Carved.setWord hp _ hd hlive _ (.inr (.inr rfl))
    apply Carved.setWord hp _ hd hlive _ (.inr (.inl rfl))
    exact h.setWord hp hd hlive _ (.inl rfl)
  · rw [file_of_full s policy _ _ hfull]
    exact h.setWord hp hd hlive _ (.inl rfl)

/-- Unlinking a chunk that is not live keeps the layout. -/
theorem unlink (hp : policy.Sound) (h : Carved policy s cs) {d : Chunk} (hd : d ∈ cs)
    (hlive : d.isLive = false)
    (hprevious : ∀ y ∈ s.previous d.start, ∃ c ∈ cs, c.start = y ∧ c.isLive = false)
    (hnext : ∀ y ∈ s.next d.start, ∃ c ∈ cs, c.start = y ∧ c.isLive = false)
    (htracked : s.word d.start lengthField ≠ untracked) :
    Carved policy (s.unlink d.start) cs := by
  rw [unlink_of_tracked s _ htracked]
  apply Carved.setFreeList
  apply Carved.setWord hp _ hd hlive _ (.inl rfl)
  apply Carved.setPrevious hp _ hnext
  exact h.setNext hp hprevious _

/-- The starts of chunks are apart. -/
theorem apart_of_mem (hp : policy.Sound) (h : Carved policy s cs) {o x : Nat}
    (ho : ∃ c ∈ cs, c.start = o) (hx : ∃ c ∈ cs, c.start = x) : Apart o x := by
  obtain ⟨c, hc, rfl⟩ := ho
  obtain ⟨d, hd, rfl⟩ := hx
  by_cases heq : c.start = d.start
  · exact .inl heq
  · exact .inr (h.apart hp hc hd heq)

theorem start_lt_noChunk (hp : policy.Sound) (h : Carved policy s cs) {o : Nat}
    (ho : ∃ c ∈ cs, c.start = o) : o < noChunk := by
  obtain ⟨c, hc, rfl⟩ := ho
  have hstop := h.stop_le hp hc
  have hsize := h.size_ge hp hc
  unfold Chunk.stop at hstop
  unfold noChunk
  omega

end Carved

/-! ## Lists of a segment -/

/-- The lists of a segment hold free chunks, linked in order, and no more of them than allowed; each
chunk on a list belongs there by its size, and a free chunk on no list says so. -/
structure Listed (policy : AllocationPolicy) (s : Segment) (cs : List Chunk)
    (lists : Nat → List Nat) : Prop where
  count : s.freeLists.size = policy.classes.listCount
  head : ∀ i, (s.freeList i).head = (lists i).head?
  length : ∀ i, (s.freeList i).length = (lists i).length
  bounded : ∀ i, (lists i).length ≤ policy.freeListSize
  nodup : ∀ i, (lists i).Nodup
  linked : ∀ i, s.Linked none (lists i) none
  free_of_mem : ∀ i, ∀ o ∈ lists i, ∃ c ∈ cs, c.start = o ∧ c.content = .free ∧
    policy.classes.listForChunk c.size = i ∧ s.word o lengthField = i
  tracked : ∀ c ∈ cs, c.content = .free →
    s.word c.start lengthField = untracked ∨ c.start ∈ lists (policy.classes.listForChunk c.size)

/-- The lists after a chunk is put on the front of its list, if that is not full. -/
def fileOn (policy : AllocationPolicy) (lists : Nat → List Nat) (o size : Nat) : Nat → List Nat :=
  if policy.freeListSize ≤ (lists (policy.classes.listForChunk size)).length then lists
  else Function.update lists (policy.classes.listForChunk size)
    (o :: lists (policy.classes.listForChunk size))

/-- The lists after a chunk is taken off. -/
def unlinkFrom (lists : Nat → List Nat) (o : Nat) : Nat → List Nat := fun i => (lists i).erase o

/-- What the lists and the links read as after the chunk at `o` is filed on list `i`. -/
structure FiledAt (s s' : Segment) (cs : List Chunk) (lists : Nat → List Nat) (o i : Nat) :
    Prop where
  count : s'.freeLists.size = s.freeLists.size
  freeList_eq : ∀ j, s'.freeList j =
    if j = i then ⟨some o, (s.freeList i).length + 1⟩ else s.freeList j
  list_self : s'.word o lengthField = i
  list_eq : ∀ c ∈ cs, c.start ≠ o → s'.word c.start lengthField = s.word c.start lengthField
  previous_self : s'.previous o = none
  next_self : s'.next o = (lists i).head?
  previous_eq : ∀ j, ∀ x ∈ lists j,
    s'.previous x = if (lists i).head? = some x then some o else s.previous x
  next_eq : ∀ j, ∀ x ∈ lists j, s'.next x = s.next x

/-- What the lists and the links read as after the chunk at `o` is taken off list `i`, where it
stands between `as` and `bs`. -/
structure UnlinkedAt (s s' : Segment) (cs : List Chunk) (lists : Nat → List Nat) (o i : Nat)
    (as bs : List Nat) : Prop where
  count : s'.freeLists.size = s.freeLists.size
  freeList_eq : ∀ j, s'.freeList j =
    if j = i then ⟨if as.getLast? = none then bs.head? else (s.freeList i).head,
      (s.freeList i).length - 1⟩ else s.freeList j
  list_self : s'.word o lengthField = untracked
  list_eq : ∀ c ∈ cs, c.start ≠ o → s'.word c.start lengthField = s.word c.start lengthField
  previous_eq : ∀ j, ∀ x ∈ lists j,
    s'.previous x = if bs.head? = some x then as.getLast? else s.previous x
  next_eq : ∀ j, ∀ x ∈ lists j, s'.next x = if as.getLast? = some x then bs.head? else s.next x

namespace Listed

variable {policy : AllocationPolicy} {s s' : Segment} {cs cs' : List Chunk}
  {lists : Nat → List Nat} {d : Chunk}

/-- The list of a chunk on a list is one of those of the table. -/
theorem lt_listCount (h : Listed policy s cs lists) {i o : Nat} (ho : o ∈ lists i) :
    i < policy.classes.listCount := by
  obtain ⟨c, -, -, -, rfl, -⟩ := h.free_of_mem i o ho
  exact policy.classes.listForChunk_lt c.size

/-- A chunk that says so is on no list. -/
theorem not_mem_of_untracked (hp : policy.Sound) (h : Listed policy s cs lists) {o : Nat}
    (ho : s.word o lengthField = untracked) (i : Nat) : o ∉ lists i := by
  intro hmem
  have hlt := h.lt_listCount hmem
  have hcount := hp.listCount_lt
  obtain ⟨c, -, -, -, -, hword⟩ := h.free_of_mem i o hmem
  unfold untracked at ho
  omega

/-- A chunk is on one list at most. -/
theorem eq_of_mem (h : Listed policy s cs lists) {i j o : Nat} (hi : o ∈ lists i)
    (hj : o ∈ lists j) : i = j := by
  obtain ⟨c, -, -, -, -, hword⟩ := h.free_of_mem i o hi
  obtain ⟨d, -, -, -, -, hword'⟩ := h.free_of_mem j o hj
  omega

/-- The chunks on lists are free. -/
theorem exists_not_live (h : Listed policy s cs lists) {i o : Nat} (ho : o ∈ lists i) :
    ∃ c ∈ cs, c.start = o ∧ c.isLive = false := by
  obtain ⟨c, hc, hstart, hfree, -⟩ := h.free_of_mem i o ho
  exact ⟨c, hc, hstart, Chunk.isLive_eq_false_of_free hfree⟩

theorem exists_start (h : Listed policy s cs lists) {i o : Nat} (ho : o ∈ lists i) :
    ∃ c ∈ cs, c.start = o := by
  obtain ⟨c, hc, hstart, -⟩ := h.free_of_mem i o ho
  exact ⟨c, hc, hstart⟩

/-- The lists stay as they are while nothing is written to free chunks, chunks on them stay in the
layout and chunks that become free say that they are on no list. -/
theorem congr (h : Listed policy s cs lists) (hlists : s'.freeLists = s.freeLists)
    (hword : ∀ i, ∀ o ∈ lists i, ∀ field ∈ linkFields, s'.word o field = s.word o field)
    (hkept : ∀ i, ∀ c ∈ cs, c.content = .free → c.start ∈ lists i → c ∈ cs')
    (hfree : ∀ c ∈ cs', c.content = .free → s'.word c.start lengthField = untracked ∨
      (c ∈ cs ∧ s'.word c.start lengthField = s.word c.start lengthField)) :
    Listed policy s' cs' lists := by
  have hlist : ∀ i, s'.freeList i = s.freeList i := fun i => by rw [freeList, hlists, ← freeList]
  refine ⟨by rw [hlists, h.count], fun i => by rw [hlist, h.head], fun i => by rw [hlist, h.length],
    h.bounded, h.nodup, ?_, ?_, ?_⟩
  · intro i
    refine (h.linked i).congr ?_ ?_
    · intro x hx
      rw [previous, hword i x hx _ (by decide), ← previous]
    · intro x hx
      rw [next, hword i x hx _ (by decide), ← next]
  · intro i o ho
    obtain ⟨c, hc, rfl, hcfree, hcsize, hcword⟩ := h.free_of_mem i o ho
    exact ⟨c, hkept i c hc hcfree ho, rfl, hcfree, hcsize,
      by rw [hword i _ ho _ (by decide), hcword]⟩
  · intro c hc hcfree
    rcases hfree c hc hcfree with hun | ⟨hmem, heq⟩
    · exact .inl hun
    · rw [heq]
      exact h.tracked c hmem hcfree

/-- A chunk that is on no list may say so once more. -/
theorem untrack (hp : policy.Sound) (hc : Carved policy s cs) (h : Listed policy s cs lists)
    (hd : d ∈ cs) (hnot : ∀ i, d.start ∉ lists i) :
    Listed policy (s.setWord d.start lengthField untracked) cs lists := by
  have hother : ∀ c ∈ cs, ∀ field ∈ linkFields, c.start ≠ d.start →
      (s.setWord d.start lengthField untracked).word c.start field = s.word c.start field := by
    intro c hcm field hfield hne
    rw [word_setWord s (hc.apart_of_mem hp ⟨d, hd, rfl⟩ ⟨c, hcm, rfl⟩) (by decide) (by decide)
      hfield, if_neg fun hand => hne hand.1]
  refine h.congr (freeLists_setWord ..) ?_ (fun _ c hcm _ _ => hcm) ?_
  · intro i o ho field hfield
    obtain ⟨c, hcm, rfl⟩ := h.exists_start ho
    exact hother c hcm field hfield fun heq => hnot i (heq ▸ ho)
  · intro c hcm _
    by_cases heq : c.start = d.start
    · rw [heq]
      exact .inl (word_setWord_self s _ _ (by decide))
    · exact .inr ⟨hcm, hother c hcm _ (by decide) heq⟩

/-- What filing writes. -/
theorem filedAt (hp : policy.Sound) (hc : Carved policy s cs) (h : Listed policy s cs lists)
    (hd : d ∈ cs) (hnot : ∀ i, d.start ∉ lists i) {i : Nat}
    (hi : policy.classes.listForChunk d.size = i) (hroom : (lists i).length < policy.freeListSize) :
    FiledAt s (s.file policy d.start d.size) cs lists d.start i := by
  have hlt := policy.classes.listForChunk_lt d.size
  have hcount := hp.listCount_lt
  have hroom' : (s.freeList (policy.classes.listForChunk d.size)).length < policy.freeListSize := by
    rwa [h.length, hi]
  have hdlt := hc.start_lt_noChunk hp ⟨d, hd, rfl⟩
  have hheadlt : ∀ y ∈ (lists i).head?, y < noChunk := fun y hy =>
    hc.start_lt_noChunk hp (h.exists_start (List.mem_of_head? hy))
  have hread : ∀ x, (∃ c ∈ cs, c.start = x) → ∀ field ∈ linkFields,
      (s.file policy d.start d.size).word x field =
        if (lists i).head? = some x ∧ field = previousField then d.start
        else if x = d.start then
          if field = lengthField then i
          else if field = nextField then toLink (lists i).head? else noChunk
        else s.word x field := by
    intro x hx field hfield
    have hhead : ∀ y ∈ (s.freeList (policy.classes.listForChunk d.size)).head,
        y < noChunk ∧ Apart y x := by
      intro y hy
      rw [h.head] at hy
      have hy' := h.exists_start (List.mem_of_head? hy)
      exact ⟨hc.start_lt_noChunk hp hy', hc.apart_of_mem hp hy' hx⟩
    have hword := word_file s policy (x := x) hroom' (by unfold noChunk; omega) hdlt hhead
      (hc.apart_of_mem hp ⟨d, hd, rfl⟩ hx) hfield
    rwa [h.head, hi] at hword
  -- the chunk is not on the list yet, so it is not the one in front of which it is put
  have hself : ∀ field ∈ linkFields, (s.file policy d.start d.size).word d.start field =
      if field = lengthField then i else if field = nextField then toLink (lists i).head?
      else noChunk := by
    intro field hfield
    rw [hread _ ⟨d, hd, rfl⟩ field hfield, if_neg, if_pos rfl]
    exact fun hand => hnot i (List.mem_of_head? hand.1)
  have hother : ∀ x, (∃ c ∈ cs, c.start = x) → x ≠ d.start → ∀ field ∈ linkFields,
      (s.file policy d.start d.size).word x field =
        if (lists i).head? = some x ∧ field = previousField then d.start else s.word x field := by
    intro x hx hne field hfield
    rw [hread x hx field hfield, if_neg hne]
  have hlisted : ∀ j, ∀ x ∈ lists j, (∃ c ∈ cs, c.start = x) ∧ x ≠ d.start := fun j x hx =>
    ⟨h.exists_start hx, fun heq => hnot j (heq ▸ hx)⟩
  refine ⟨?_, ?_, ?_, ?_, ?_, ?_, ?_, ?_⟩
  · rw [file_of_room s policy _ _ hroom']
    simp [setFreeList]
  · intro j
    rw [freeList_file s policy d.start d.size j hroom' (by rwa [h.count]), hi]
  · rw [hself _ (by decide), if_pos rfl]
  · intro c hcm hne
    rw [hother _ ⟨c, hcm, rfl⟩ hne _ (by decide), if_neg fun hand => absurd hand.2 (by decide)]
  · rw [previous, hself _ (by decide)]
    rfl
  · rw [next, hself _ (by decide)]
    exact ofLink_toLink hheadlt
  · intro j x hx
    obtain ⟨hstart, hne⟩ := hlisted j x hx
    rw [previous, hother x hstart hne _ (by decide)]
    by_cases hhead : (lists i).head? = some x
    · rw [if_pos ⟨hhead, rfl⟩, if_pos hhead]
      have hlink : ofLink (toLink (some d.start)) = some d.start :=
        ofLink_toLink fun y hy => Option.some.inj hy ▸ hdlt
      exact hlink
    · rw [if_neg fun hand => hhead hand.1, if_neg hhead, ← previous]
  · intro j x hx
    obtain ⟨hstart, hne⟩ := hlisted j x hx
    rw [next, hother x hstart hne _ (by decide), if_neg fun hand => absurd hand.2 (by decide),
      ← next]

/-- With what filing writes, the chunk is on the front of its list. -/
theorem of_filedAt (hp : policy.Sound) (hc : Carved policy s cs) (h : Listed policy s cs lists)
    (hd : d ∈ cs) (hfree : d.content = .free) (hnot : ∀ i, d.start ∉ lists i) {i : Nat}
    (hi : policy.classes.listForChunk d.size = i) (hroom : (lists i).length < policy.freeListSize)
    (hs' : FiledAt s s' cs lists d.start i) :
    Listed policy s' cs (Function.update lists i (d.start :: lists i)) := by
  refine ⟨hs'.count.trans h.count, ?_, ?_, ?_, ?_, ?_, ?_, ?_⟩
  · intro j
    rw [hs'.freeList_eq, Function.update_apply]
    split
    · rfl
    · exact h.head j
  · intro j
    rw [hs'.freeList_eq, Function.update_apply]
    split
    · rw [h.length]
      rfl
    · exact h.length j
  · intro j
    rw [Function.update_apply]
    split
    · exact hroom
    · exact h.bounded j
  · intro j
    rw [Function.update_apply]
    split
    · exact List.nodup_cons.2 ⟨hnot i, h.nodup i⟩
    · exact h.nodup j
  · intro j
    rw [Function.update_apply]
    split
    · exact (h.linked i).push (h.nodup i) hs'.previous_self hs'.next_self (hs'.previous_eq i)
        (hs'.next_eq i)
    · -- the chunk that was the first one on list `i` is on no other list
      rename_i hji
      refine (h.linked j).congr ?_ (hs'.next_eq j)
      intro x hx
      rw [hs'.previous_eq j x hx, if_neg]
      exact fun hhead => hji (h.eq_of_mem hx (List.mem_of_head? hhead))
  · intro j o ho
    rw [Function.update_apply] at ho
    have hold : ∀ k, o ∈ lists k → ∃ c ∈ cs, c.start = o ∧ c.content = .free ∧
        policy.classes.listForChunk c.size = k ∧ s'.word o lengthField = k := by
      intro k hk
      obtain ⟨c, hcm, rfl, hcfree, hcsize, hcword⟩ := h.free_of_mem k o hk
      have hne : c.start ≠ d.start := fun heq => hnot k (heq ▸ hk)
      exact ⟨c, hcm, rfl, hcfree, hcsize, (hs'.list_eq c hcm hne).trans hcword⟩
    split at ho
    · rename_i hji
      rw [hji]
      rcases List.mem_cons.1 ho with rfl | ho
      · exact ⟨d, hd, rfl, hfree, hi, hs'.list_self⟩
      · exact hold i ho
    · exact hold j ho
  · intro c hcm hcfree
    rw [Function.update_apply]
    by_cases heq : c.start = d.start
    · obtain rfl := hc.eq_of_start_eq hp hcm hd heq
      rw [hi, if_pos rfl]
      exact .inr List.mem_cons_self
    · rw [hs'.list_eq c hcm heq]
      refine (h.tracked c hcm hcfree).imp_right ?_
      intro hmem
      split
      · rename_i hci
        exact List.mem_cons_of_mem _ (hci ▸ hmem)
      · exact hmem

/-- **Filing puts a chunk on the front of its list, unless that is full.** -/
theorem file (hp : policy.Sound) (hc : Carved policy s cs) (h : Listed policy s cs lists)
    (hd : d ∈ cs) (hfree : d.content = .free) (hword : s.word d.start lengthField = untracked) :
    Listed policy (s.file policy d.start d.size) cs (fileOn policy lists d.start d.size) := by
  have hnot := h.not_mem_of_untracked hp hword
  unfold fileOn
  split
  · rename_i hfull
    rw [← h.length] at hfull
    rw [file_of_full s policy _ _ hfull]
    exact h.untrack hp hc hd hnot
  · rename_i hroom
    have hroom' := Nat.lt_of_not_le hroom
    exact h.of_filedAt hp hc hd hfree hnot rfl hroom' (h.filedAt hp hc hd hnot rfl hroom')

/-- A free chunk that is tracked stands on the list for its size, which its header names. -/
theorem exists_append (h : Listed policy s cs lists) (hd : d ∈ cs) (hfree : d.content = .free)
    (hword : s.word d.start lengthField ≠ untracked) :
    ∃ i as bs, lists i = as ++ d.start :: bs ∧ s.word d.start lengthField = i ∧
      s.previous d.start = as.getLast? ∧ s.next d.start = bs.head? := by
  have hmem := (h.tracked d hd hfree).resolve_left hword
  obtain ⟨c, hcm, hstart, -, -, hlist⟩ := h.free_of_mem _ _ hmem
  obtain ⟨as, bs, happ⟩ := List.append_of_mem hmem
  refine ⟨_, as, bs, happ, hlist, ?_⟩
  have hlinked := h.linked (policy.classes.listForChunk d.size)
  rw [happ] at hlinked
  obtain ⟨-, hprevious, hnext, -⟩ := (linked_append ..).1 hlinked
  rw [Option.or_none] at hprevious hnext
  exact ⟨hprevious, hnext⟩

/-- What unlinking writes. -/
theorem unlinkedAt (hp : policy.Sound) (hc : Carved policy s cs) (h : Listed policy s cs lists)
    (hd : d ∈ cs) {i : Nat} {as bs : List Nat} (happ : lists i = as ++ d.start :: bs)
    (hlist : s.word d.start lengthField = i) (hprevious : s.previous d.start = as.getLast?)
    (hnext : s.next d.start = bs.head?) :
    UnlinkedAt s (s.unlink d.start) cs lists d.start i as bs := by
  have hlt : i < policy.classes.listCount := h.lt_listCount (o := d.start) (by simp [happ])
  have htracked : s.word d.start lengthField ≠ untracked := by
    have := hp.listCount_lt
    rw [hlist]
    unfold untracked
    omega
  have hstart : ∀ y, y ∈ as ∨ y ∈ bs → ∃ c ∈ cs, c.start = y := by
    intro y hy
    refine h.exists_start (i := i) ?_
    rw [happ]
    rcases hy with hy | hy <;> simp [hy]
  have hlast : ∀ y ∈ as.getLast?, ∃ c ∈ cs, c.start = y := fun y hy =>
    hstart y (.inl (List.mem_of_getLast? hy))
  have hhead : ∀ y ∈ bs.head?, ∃ c ∈ cs, c.start = y := fun y hy =>
    hstart y (.inr (List.mem_of_head? hy))
  have hread : ∀ x, (∃ c ∈ cs, c.start = x) → ∀ field ∈ linkFields,
      (s.unlink d.start).word x field =
        if x = d.start ∧ field = lengthField then untracked
        else if bs.head? = some x ∧ field = previousField then toLink as.getLast?
        else if as.getLast? = some x ∧ field = nextField then toLink bs.head?
        else s.word x field := by
    intro x hx field hfield
    have hplace : ∀ y, (∃ c ∈ cs, c.start = y) → y < noChunk ∧ Apart y x := fun y hy =>
      ⟨hc.start_lt_noChunk hp hy, hc.apart_of_mem hp hy hx⟩
    have hword := word_unlink s (x := x) htracked
      (by rw [hprevious]; exact fun y hy => hplace y (hlast y hy))
      (by rw [hnext]; exact fun y hy => hplace y (hhead y hy))
      (hc.apart_of_mem hp ⟨d, hd, rfl⟩ hx) hfield
    rwa [hprevious, hnext] at hword
  refine ⟨?_, ?_, ?_, ?_, ?_, ?_⟩
  · rw [unlink_of_tracked s _ htracked]
    simp [setFreeList]
  · intro j
    rw [freeList_unlink s d.start j htracked (by rwa [hlist, h.count]), hlist, hprevious, hnext]
  · rw [hread _ ⟨d, hd, rfl⟩ _ (by decide), if_pos ⟨rfl, rfl⟩]
  · intro c hcm hne
    rw [hread _ ⟨c, hcm, rfl⟩ _ (by decide), if_neg fun hand => hne hand.1,
      if_neg fun hand => absurd hand.2 (by decide), if_neg fun hand => absurd hand.2 (by decide)]
  · intro j x hx
    rw [previous, hread x (h.exists_start hx) _ (by decide),
      if_neg fun hand => absurd hand.2 (by decide)]
    by_cases hxhead : bs.head? = some x
    · rw [if_pos ⟨hxhead, rfl⟩, if_pos hxhead]
      exact ofLink_toLink fun y hy => hc.start_lt_noChunk hp (hlast y hy)
    · rw [if_neg fun hand => hxhead hand.1, if_neg fun hand => absurd hand.2 (by decide),
        if_neg hxhead, ← previous]
  · intro j x hx
    rw [next, hread x (h.exists_start hx) _ (by decide),
      if_neg fun hand => absurd hand.2 (by decide), if_neg fun hand => absurd hand.2 (by decide)]
    by_cases hxlast : as.getLast? = some x
    · rw [if_pos ⟨hxlast, rfl⟩, if_pos hxlast]
      exact ofLink_toLink fun y hy => hc.start_lt_noChunk hp (hhead y hy)
    · rw [if_neg fun hand => hxlast hand.1, if_neg hxlast, ← next]

/-- With what unlinking writes, the chunk is off its list. -/
theorem of_unlinkedAt (h : Listed policy s cs lists) {i : Nat} {as bs : List Nat}
    (happ : lists i = as ++ d.start :: bs) (hs' : UnlinkedAt s s' cs lists d.start i as bs) :
    Listed policy s' cs (unlinkFrom lists d.start) := by
  have hnd := h.nodup i
  rw [happ] at hnd
  have hnas : d.start ∉ as := fun hmem =>
    (List.nodup_append.1 hnd).2.2 _ hmem _ List.mem_cons_self rfl
  have herase : (lists i).erase d.start = as ++ bs := by
    rw [happ, List.erase_append_right _ hnas, List.erase_cons_head]
  have hmemi : ∀ x ∈ as ++ bs, x ∈ lists i := by
    intro x hx
    rw [happ]
    rcases List.mem_append.1 hx with hx | hx <;> simp [hx]
  have hdi : d.start ∈ lists i := by simp [happ]
  -- the other lists do not have the chunk
  have hsame : ∀ j, j ≠ i → unlinkFrom lists d.start j = lists j := fun j hji =>
    List.erase_of_not_mem fun hmem => hji (h.eq_of_mem hmem hdi)
  refine ⟨hs'.count.trans h.count, ?_, ?_, ?_, ?_, ?_, ?_, ?_⟩
  · intro j
    rw [hs'.freeList_eq]
    split
    · rename_i hji
      rw [hji, unlinkFrom, herase, h.head, happ]
      cases as with
      | nil => simp
      | cons a as => simp
    · rename_i hji
      rw [hsame j hji, h.head]
  · intro j
    rw [hs'.freeList_eq]
    split
    · rename_i hji
      rw [hji, unlinkFrom, List.length_erase_of_mem hdi, h.length]
    · rename_i hji
      rw [hsame j hji, h.length]
  · intro j
    exact Nat.le_trans List.length_erase_le (h.bounded j)
  · intro j
    exact (h.nodup j).erase _
  · intro j
    by_cases hji : j = i
    · have hlinked := h.linked i
      rw [happ] at hlinked
      rw [hji, unlinkFrom, herase]
      exact hlinked.splice hnd (fun x hx => hs'.previous_eq i x (hmemi x hx)) fun x hx =>
        hs'.next_eq i x (hmemi x hx)
    · -- the neighbours of the chunk are on list `i` alone
      have hnot : ∀ x ∈ lists j, x ∉ as ++ bs := fun x hx hmem =>
        hji (h.eq_of_mem hx (hmemi x hmem))
      rw [hsame j hji]
      refine (h.linked j).congr ?_ ?_
      · intro x hx
        rw [hs'.previous_eq j x hx, if_neg]
        exact fun hhead => hnot x hx (List.mem_append_right _ (List.mem_of_head? hhead))
      · intro x hx
        rw [hs'.next_eq j x hx, if_neg]
        exact fun hlast => hnot x hx (List.mem_append_left _ (List.mem_of_getLast? hlast))
  · intro j o ho
    obtain ⟨hne, hmem⟩ := (h.nodup j).mem_erase_iff.1 ho
    obtain ⟨c, hcm, rfl, hcfree, hcsize, hcword⟩ := h.free_of_mem j o hmem
    exact ⟨c, hcm, rfl, hcfree, hcsize, (hs'.list_eq c hcm hne).trans hcword⟩
  · intro c hcm hcfree
    by_cases hne : c.start = d.start
    · left
      rw [hne, hs'.list_self]
    · rw [hs'.list_eq c hcm hne]
      exact (h.tracked c hcm hcfree).imp_right (List.mem_erase_of_ne hne).2

/-- **Unlinking erases a free chunk from its list, if it is on one.** -/
theorem unlink (hp : policy.Sound) (hc : Carved policy s cs) (h : Listed policy s cs lists)
    (hd : d ∈ cs) (hfree : d.content = .free) :
    Carved policy (s.unlink d.start) cs ∧
      Listed policy (s.unlink d.start) cs (unlinkFrom lists d.start) ∧
      (s.unlink d.start).word d.start lengthField = untracked := by
  by_cases hword : s.word d.start lengthField = untracked
  · have herase : unlinkFrom lists d.start = lists := funext fun i =>
      List.erase_of_not_mem (h.not_mem_of_untracked hp hword i)
    rw [unlink_of_untracked s _ hword, herase]
    exact ⟨hc, h, hword⟩
  · obtain ⟨i, as, bs, happ, hlist, hprevious, hnext⟩ := h.exists_append hd hfree hword
    have hs' := h.unlinkedAt hp hc hd happ hlist hprevious hnext
    refine ⟨?_, h.of_unlinkedAt happ hs', hs'.list_self⟩
    refine hc.unlink hp hd (Chunk.isLive_eq_false_of_free hfree) ?_ ?_ hword
    · intro y hy
      rw [hprevious] at hy
      exact h.exists_not_live (i := i) (by simp [happ, List.mem_of_getLast? hy])
    · intro y hy
      rw [hnext] at hy
      exact h.exists_not_live (i := i) (by simp [happ, List.mem_of_head? hy])

/-- After a chunk is taken off, no list holds it. -/
theorem not_mem_unlinkFrom (h : Listed policy s cs lists) (o i : Nat) : o ∉ unlinkFrom lists o i :=
  (h.nodup i).not_mem_erase

end Listed

end ObjectPile.Segment
