/-
# Links

The lists of free chunks are linked through words in the bytes of the chunks themselves. This module
is about these words alone: which of them filing a chunk and unlinking one write, what all of them
read as afterwards, and when the chunks of a plain list of offsets are linked in its order.

* `Segment.Linked` : the chunks of a list are linked in order, in both directions.
* `Linked.push`, `Linked.splice` : a chunk is put on the front, or taken out of the middle.
* `Linked.findFit?_eq` : the search finds the first chunk that is large enough.
* `word_file`, `word_unlink` : the words after a chunk is filed, and after one is unlinked.
-/
import ObjectPile.Proofs.Carved

namespace ObjectPile.Segment

/-! ## Links -/

/-- A link that leads to a chunk is read as it was written. -/
theorem ofLink_toLink {chunk : Option Nat} (h : ∀ o ∈ chunk, o < noChunk) :
    ofLink (toLink chunk) = chunk := by
  cases chunk with
  | none => rfl
  | some o =>
    have ho := h o rfl
    unfold toLink ofLink
    rw [Option.getD_some, if_neg (by omega)]

theorem toLink_lt {chunk : Option Nat} (h : ∀ o ∈ chunk, o < noChunk) :
    toLink chunk < 4294967296 := by
  cases chunk with
  | none => decide
  | some o =>
    have ho := h o rfl
    unfold noChunk at ho
    unfold toLink
    rw [Option.getD_some]
    omega

/-- Where a free chunk keeps its list and its neighbours there. -/
def linkFields : List Nat := [lengthField, nextField, previousField]

/-- Two offsets are the same, or so far apart that the first words of the chunks there have no byte
in common. -/
def Apart (o x : Nat) : Prop := o = x ∨ o + 32 ≤ x ∨ x + 32 ≤ o

/-- What the list and the links of chunks read as after one of them is written. -/
theorem word_setWord (s : Segment) {o x field field' n : Nat} (hox : Apart o x)
    (hn : n < 4294967296) (hf : field ∈ linkFields) (hf' : field' ∈ linkFields) :
    (s.setWord o field n).word x field' = if x = o ∧ field' = field then n else s.word x field' := by
  split
  · rename_i h
    obtain ⟨rfl, rfl⟩ := h
    exact word_setWord_self s _ _ hn
  · -- the words stand in different chunks or in different places of one
    rename_i h
    apply word_setWord_of_disjoint
    simp only [linkFields, lengthField, nextField, previousField, List.mem_cons, List.not_mem_nil,
      or_false] at hf hf'
    unfold Apart at hox
    omega

/-- What the lists read as after one of them is replaced. -/
theorem freeList_setFreeList (s : Segment) {i : Nat} (j : Nat) (l : FreeList)
    (hi : i < s.freeLists.size) :
    (s.setFreeList i l).freeList j = if j = i then l else s.freeList j := by
  simp only [freeList, setFreeList, Array.getD_eq_getD_getElem?, Array.getElem?_setIfInBounds]
  by_cases h : i = j
  · subst h
    simp [hi]
  · rw [if_neg h, if_neg (Ne.symm h)]

/-! ## Linked lists -/

/-- The chunks of a list are linked in order, between `p` in front of them and `n` behind them. -/
def Linked (s : Segment) : Option Nat → List Nat → Option Nat → Prop
  | _, [], _ => True
  | p, o :: os, n => s.previous o = p ∧ s.next o = os.head?.or n ∧ Linked s (some o) os n

theorem linked_append (s : Segment) (p n : Option Nat) (as bs : List Nat) :
    s.Linked p (as ++ bs) n ↔
      s.Linked p as (bs.head?.or n) ∧ s.Linked (as.getLast?.or p) bs n := by
  induction as generalizing p with
  | nil => simp [Linked]
  | cons a as ih =>
    have hlast : ((a :: as).getLast?).or p = as.getLast?.or (some a) := by
      rw [List.getLast?_cons]
      cases as.getLast? <;> rfl
    rw [List.cons_append, Linked, Linked, ih, hlast, List.head?_append, Option.or_assoc,
      and_assoc, and_assoc]

/-- The first chunk of a list has the link in front of the list. -/
theorem Linked.previous_of_head? {s : Segment} {p n : Option Nat} {os : List Nat}
    (h : s.Linked p os n) {x : Nat} (hx : os.head? = some x) : s.previous x = p := by
  cases os with
  | nil => simp at hx
  | cons o os =>
    obtain rfl := Option.some.inj hx
    exact h.1

/-- The last chunk of a list has the link behind the list. -/
theorem Linked.next_of_getLast? {s : Segment} {p n : Option Nat} {os : List Nat}
    (h : s.Linked p os n) {x : Nat} (hx : os.getLast? = some x) : s.next x = n := by
  obtain ⟨as, rfl⟩ := List.getLast?_eq_some_iff.1 hx
  obtain ⟨-, -, hn, -⟩ := (linked_append s p n as [x]).1 h
  simpa using hn

/-- A list stays linked where only the links at its ends are written. -/
theorem Linked.relink {s s' : Segment} {p n p' n' : Option Nat} {os : List Nat}
    (h : s.Linked p os n) (hnd : os.Nodup)
    (hprevious : ∀ x ∈ os, s'.previous x = if os.head? = some x then p' else s.previous x)
    (hnext : ∀ x ∈ os, s'.next x = if os.getLast? = some x then n' else s.next x) :
    s'.Linked p' os n' := by
  induction os generalizing p p' with
  | nil => trivial
  | cons o os ih =>
    obtain ⟨-, hn, hrest⟩ := h
    obtain ⟨ho, hnd'⟩ := List.nodup_cons.1 hnd
    refine ⟨by simpa using hprevious o List.mem_cons_self, ?_, ?_⟩
    · rw [hnext o List.mem_cons_self]
      cases os with
      | nil => simp
      | cons q os =>
        have hne : (o :: q :: os).getLast? ≠ some o := by
          rw [List.getLast?_cons_cons]
          exact fun heq => ho (List.mem_of_getLast? heq)
        rw [if_neg hne, hn]
        rfl
    · -- the link in front of the rest is `o`, which did not change
      refine ih hrest hnd' ?_ ?_
      · intro x hx
        have hne : o ≠ x := fun heq => ho (heq ▸ hx)
        rw [hprevious x (List.mem_cons_of_mem _ hx), if_neg (by simpa using hne)]
        split
        · rename_i hhead
          cases os with
          | nil => simp at hx
          | cons q os =>
            obtain rfl := Option.some.inj hhead
            exact hrest.1
        · rfl
      · intro x hx
        rw [hnext x (List.mem_cons_of_mem _ hx)]
        cases os with
        | nil => simp at hx
        | cons q os => rw [List.getLast?_cons_cons]

/-- A list stays linked where none of its links is written. -/
theorem Linked.congr {s s' : Segment} {p n : Option Nat} {os : List Nat} (h : s.Linked p os n)
    (hprevious : ∀ x ∈ os, s'.previous x = s.previous x)
    (hnext : ∀ x ∈ os, s'.next x = s.next x) : s'.Linked p os n := by
  induction os generalizing p with
  | nil => trivial
  | cons o os ih =>
    obtain ⟨hp, hn, hrest⟩ := h
    refine ⟨by rw [hprevious o List.mem_cons_self, hp], by rw [hnext o List.mem_cons_self, hn], ?_⟩
    exact ih hrest (fun x hx => hprevious x (List.mem_cons_of_mem _ hx))
      fun x hx => hnext x (List.mem_cons_of_mem _ hx)

/-- A list stays linked when a chunk is put on its front. -/
theorem Linked.push {s s' : Segment} {o : Nat} {os : List Nat} (h : s.Linked none os none)
    (hnd : os.Nodup) (hp : s'.previous o = none) (hn : s'.next o = os.head?)
    (hprevious : ∀ x ∈ os, s'.previous x = if os.head? = some x then some o else s.previous x)
    (hnext : ∀ x ∈ os, s'.next x = s.next x) : s'.Linked none (o :: os) none := by
  refine ⟨hp, by rw [hn, Option.or_none], h.relink hnd hprevious ?_⟩
  intro x hx
  rw [hnext x hx]
  split
  · rename_i hlast
    exact h.next_of_getLast? hlast
  · rfl

/-- A list stays linked when a chunk is taken out of its middle. -/
theorem Linked.splice {s s' : Segment} {o : Nat} {as bs : List Nat}
    (h : s.Linked none (as ++ o :: bs) none) (hnd : (as ++ o :: bs).Nodup)
    (hprevious : ∀ x ∈ as ++ bs,
      s'.previous x = if bs.head? = some x then as.getLast? else s.previous x)
    (hnext : ∀ x ∈ as ++ bs,
      s'.next x = if as.getLast? = some x then bs.head? else s.next x) :
    s'.Linked none (as ++ bs) none := by
  obtain ⟨hnas, hnobs, hdisjoint⟩ := List.nodup_append.1 hnd
  obtain ⟨hlas, -, -, hlbs⟩ := (linked_append ..).1 h
  rw [linked_append, Option.or_none, Option.or_none]
  constructor
  · -- of the front only the last link is written: no chunk of it is the first one of the back
    refine hlas.relink hnas ?_ fun x hx => hnext x (List.mem_append_left _ hx)
    intro x hx
    rw [hprevious x (List.mem_append_left _ hx), if_neg fun hhead =>
      hdisjoint x hx x (List.mem_cons_of_mem _ (List.mem_of_head? hhead)) rfl]
    split
    · rename_i hhead
      exact hlas.previous_of_head? hhead
    · rfl
  · -- and of the back only the first one
    refine hlbs.relink (List.nodup_cons.1 hnobs).2
      (fun x hx => hprevious x (List.mem_append_right _ hx)) ?_
    intro x hx
    rw [hnext x (List.mem_append_right _ hx), if_neg fun hlast =>
      hdisjoint x (List.mem_of_getLast? hlast) x (List.mem_cons_of_mem _ hx) rfl]
    split
    · rename_i hlast
      exact hlbs.next_of_getLast? hlast
    · rfl

/-- Among the first chunks of a list the search finds the first one that is large enough. -/
theorem Linked.findFit?_eq {s : Segment} {p : Option Nat} {os : List Nat} (h : s.Linked p os none)
    (size limit : Nat) :
    s.findFit? size limit os.head? = (os.take limit).find? fun o => size ≤ s.chunkSize o := by
  induction limit generalizing p os with
  | zero => rfl
  | succ limit ih =>
    cases os with
    | nil => rfl
    | cons o os =>
      obtain ⟨-, hn, hrest⟩ := h
      rw [Option.or_none] at hn
      -- the next link is the head of the rest, so the rest of the search is that of the rest
      rw [List.head?_cons, findFit?, List.take_succ_cons, List.find?_cons, hn]
      by_cases hsize : size ≤ s.chunkSize o
      · simp [hsize]
      · simp [hsize, ih hrest]

/-! ## What filing and unlinking write -/

/-- Writes the link to the next chunk into a chunk, if there is one. -/
def setNext (s : Segment) (chunk : Option Nat) (n : Nat) : Segment :=
  match chunk with
  | none => s
  | some o => s.setWord o nextField n

/-- Writes the link to the chunk before into a chunk, if there is one. -/
def setPrevious (s : Segment) (chunk : Option Nat) (n : Nat) : Segment :=
  match chunk with
  | none => s
  | some o => s.setWord o previousField n

/-- Writes the list and the links of a chunk that comes first on its list. -/
def setFirst (s : Segment) (o list : Nat) (head : Option Nat) : Segment :=
  ((s.setWord o lengthField list).setWord o nextField (toLink head)).setWord o previousField noChunk

@[simp] theorem freeLists_setNext (s : Segment) (chunk : Option Nat) (n : Nat) :
    (s.setNext chunk n).freeLists = s.freeLists := by
  cases chunk <;> simp [setNext]

@[simp] theorem freeLists_setPrevious (s : Segment) (chunk : Option Nat) (n : Nat) :
    (s.setPrevious chunk n).freeLists = s.freeLists := by
  cases chunk <;> simp [setPrevious]

@[simp] theorem freeLists_setFirst (s : Segment) (o list : Nat) (head : Option Nat) :
    (s.setFirst o list head).freeLists = s.freeLists := by
  simp [setFirst]

theorem file_of_full (s : Segment) (policy : AllocationPolicy) (o size : Nat)
    (h : policy.freeListSize ≤ (s.freeList (policy.classes.listForChunk size)).length) :
    s.file policy o size = s.setWord o lengthField untracked := by
  unfold file
  exact if_pos h

theorem file_of_room (s : Segment) (policy : AllocationPolicy) (o size : Nat)
    (h : (s.freeList (policy.classes.listForChunk size)).length < policy.freeListSize) :
    s.file policy o size =
      ((s.setFirst o (policy.classes.listForChunk size)
        (s.freeList (policy.classes.listForChunk size)).head).setPrevious
          (s.freeList (policy.classes.listForChunk size)).head o).setFreeList
            (policy.classes.listForChunk size)
            ⟨some o, (s.freeList (policy.classes.listForChunk size)).length + 1⟩ := by
  unfold file
  simp only
  rw [if_neg (by omega)]
  cases (s.freeList (policy.classes.listForChunk size)).head <;> rfl

theorem unlink_of_untracked (s : Segment) (o : Nat) (h : s.word o lengthField = untracked) :
    s.unlink o = s := by
  unfold unlink
  exact if_pos h

theorem unlink_of_tracked (s : Segment) (o : Nat) (h : s.word o lengthField ≠ untracked) :
    s.unlink o =
      (((s.setNext (s.previous o) (toLink (s.next o))).setPrevious (s.next o)
        (toLink (s.previous o))).setWord o lengthField untracked).setFreeList
          (s.word o lengthField)
          ⟨if s.previous o = none then s.next o else (s.freeList (s.word o lengthField)).head,
            (s.freeList (s.word o lengthField)).length - 1⟩ := by
  unfold unlink
  simp only
  rw [if_neg h]
  cases s.previous o <;> cases s.next o <;> rfl

section Words

variable {s : Segment} {o x field n : Nat} {chunk : Option Nat}

theorem word_setNext (hchunk : ∀ y ∈ chunk, Apart y x) (hn : n < 4294967296)
    (hfield : field ∈ linkFields) :
    (s.setNext chunk n).word x field =
      if chunk = some x ∧ field = nextField then n else s.word x field := by
  cases chunk with
  | none => simp [setNext]
  | some y =>
    rw [setNext, word_setWord s (hchunk y rfl) hn (by decide) hfield]
    simp [eq_comm]

theorem word_setPrevious (hchunk : ∀ y ∈ chunk, Apart y x) (hn : n < 4294967296)
    (hfield : field ∈ linkFields) :
    (s.setPrevious chunk n).word x field =
      if chunk = some x ∧ field = previousField then n else s.word x field := by
  cases chunk with
  | none => simp [setPrevious]
  | some y =>
    rw [setPrevious, word_setWord s (hchunk y rfl) hn (by decide) hfield]
    simp [eq_comm]

theorem word_setFirst {list : Nat} {head : Option Nat} (hox : Apart o x) (hlist : list < noChunk)
    (hhead : ∀ y ∈ head, y < noChunk) (hfield : field ∈ linkFields) :
    (s.setFirst o list head).word x field =
      if x = o then
        if field = lengthField then list else if field = nextField then toLink head else noChunk
      else s.word x field := by
  have hlt : noChunk < 4294967296 := by decide
  unfold setFirst
  rw [word_setWord _ hox hlt (by decide) hfield,
    word_setWord _ hox (toLink_lt hhead) (by decide) hfield,
    word_setWord _ hox (Nat.lt_trans hlist hlt) (by decide) hfield]
  simp only [linkFields, List.mem_cons, List.not_mem_nil, or_false] at hfield
  by_cases hx : x = o
  · rcases hfield with rfl | rfl | rfl <;>
      simp [hx, lengthField, nextField, previousField]
  · simp [hx]

end Words

/-- What the lists and the links read as after a chunk is filed. -/
theorem word_file (s : Segment) (policy : AllocationPolicy) {o size x field : Nat}
    (hroom : (s.freeList (policy.classes.listForChunk size)).length < policy.freeListSize)
    (hlist : policy.classes.listForChunk size < noChunk) (ho : o < noChunk)
    (hhead : ∀ y ∈ (s.freeList (policy.classes.listForChunk size)).head, y < noChunk ∧ Apart y x)
    (hox : Apart o x) (hfield : field ∈ linkFields) :
    (s.file policy o size).word x field =
      if (s.freeList (policy.classes.listForChunk size)).head = some x ∧ field = previousField then o
      else if x = o then
        if field = lengthField then policy.classes.listForChunk size
        else if field = nextField then
          toLink (s.freeList (policy.classes.listForChunk size)).head
        else noChunk
      else s.word x field := by
  have hlt : noChunk < 4294967296 := by decide
  rw [file_of_room s policy o size hroom, word, memory_setFreeList, ← word,
    word_setPrevious (fun y hy => (hhead y hy).2) (Nat.lt_trans ho hlt) hfield,
    word_setFirst hox hlist (fun y hy => (hhead y hy).1) hfield]

/-- What the lists and the links read as after a chunk is unlinked. -/
theorem word_unlink (s : Segment) {o x field : Nat} (h : s.word o lengthField ≠ untracked)
    (hprevious : ∀ y ∈ s.previous o, y < noChunk ∧ Apart y x)
    (hnext : ∀ y ∈ s.next o, y < noChunk ∧ Apart y x) (hox : Apart o x)
    (hfield : field ∈ linkFields) :
    (s.unlink o).word x field =
      if x = o ∧ field = lengthField then untracked
      else if s.next o = some x ∧ field = previousField then toLink (s.previous o)
      else if s.previous o = some x ∧ field = nextField then toLink (s.next o)
      else s.word x field := by
  rw [unlink_of_tracked s o h, word, memory_setFreeList, ← word,
    word_setWord _ hox (by decide) (by decide) hfield,
    word_setPrevious (fun y hy => (hnext y hy).2) (toLink_lt fun y hy => (hprevious y hy).1) hfield,
    word_setNext (fun y hy => (hprevious y hy).2) (toLink_lt fun y hy => (hnext y hy).1) hfield]

/-- What the lists read as after a chunk is filed. -/
theorem freeList_file (s : Segment) (policy : AllocationPolicy) (o size j : Nat)
    (hroom : (s.freeList (policy.classes.listForChunk size)).length < policy.freeListSize)
    (hi : policy.classes.listForChunk size < s.freeLists.size) :
    (s.file policy o size).freeList j =
      if j = policy.classes.listForChunk size then
        ⟨some o, (s.freeList (policy.classes.listForChunk size)).length + 1⟩
      else s.freeList j := by
  rw [file_of_room s policy o size hroom, freeList_setFreeList _ _ _ (by simpa using hi)]
  simp only [freeList, freeLists_setPrevious, freeLists_setFirst]

/-- What the lists read as after a chunk is unlinked. -/
theorem freeList_unlink (s : Segment) (o j : Nat) (h : s.word o lengthField ≠ untracked)
    (hi : s.word o lengthField < s.freeLists.size) :
    (s.unlink o).freeList j =
      if j = s.word o lengthField then
        ⟨if s.previous o = none then s.next o else (s.freeList (s.word o lengthField)).head,
          (s.freeList (s.word o lengthField)).length - 1⟩
      else s.freeList j := by
  rw [unlink_of_tracked s o h, freeList_setFreeList _ _ _ (by simpa using hi)]
  simp only [freeList, freeLists_setWord, freeLists_setPrevious, freeLists_setNext]

end ObjectPile.Segment
