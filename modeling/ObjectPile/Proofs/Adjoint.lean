/-
# Requests and lists fit together

A table of classes is asked in two directions: which chunk a payload needs, and on which list a free
chunk belongs. Both answers are found by searching the same capacities, one for the first class that
is large enough and one for the last class that is small enough. This module shows that the two
searches agree at every boundary, for the table made of any sizes that are accepted.

* `ClassTable.WellFormed.chunkSize_le_iff` : a chunk is large enough for a class exactly if it goes on
  the list of that class or on a later one.
* `ClassTable.WellFormed.exists_smallest` : a payload gets the smallest class with room for it.
* `ClassTable.Adjoint`, `ChunkSizes.adjoint` : what holds of the table made of accepted sizes.
-/
import ObjectPile.Proofs.Settings

namespace ObjectPile

namespace ClassTable

/-! ## The class of a payload -/

/-- A request is for the list behind all classes that are too small. -/
theorem list_classify (t : ClassTable) (n : Nat) :
    (t.classify n).list = leading (fun c => c < n) t.capacities := by
  have hle := leading_le (fun c => c < n) t.capacities
  unfold classify
  simp only
  cases hc : t.capacities[leading (fun c => c < n) t.capacities]? with
  | some c => rfl
  | none => exact Nat.le_antisymm (List.getElem?_eq_none_iff.1 hc) hle

/-- The classes before that of a payload are too small for it. -/
theorem lt_of_lt_list {t : ClassTable} {n j c : Nat} (hj : j < (t.classify n).list)
    (hc : t.capacities[j]? = some c) : c < n := by
  rw [list_classify] at hj
  obtain ⟨d, hd, hlt⟩ := exists_of_lt_leading _ _ _ hj
  obtain rfl : d = c := Option.some.inj (hd.symm.trans hc)
  exact of_decide_eq_true hlt

namespace WellFormed

variable {t : ClassTable}

/-- **The class of a payload is the smallest one with room for it.** -/
theorem exists_smallest (h : t.WellFormed) {n : Nat} (hlist : (t.classify n).list < t.oversized) :
    ∃ c, t.capacities[(t.classify n).list]? = some c ∧
      (t.classify n).chunkSize = c + headerSize ∧ n ≤ c ∧ ∀ d ∈ t.capacities, n ≤ d → c ≤ d := by
  rcases h.classify_cases n with ⟨c, hc, hsize, hle⟩ | ⟨hover, -, -⟩
  · refine ⟨c, hc, hsize, hle, ?_⟩
    intro d hd hroom
    obtain ⟨j, hj⟩ := List.mem_iff_getElem?.1 hd
    obtain ⟨hjlt, rfl⟩ := List.getElem?_eq_some_iff.1 hj
    obtain ⟨hilt, rfl⟩ := List.getElem?_eq_some_iff.1 hc
    rcases Nat.lt_trichotomy j (t.classify n).list with hbefore | heq | hafter
    · exact absurd (lt_of_lt_list hbefore hj) (Nat.not_lt.2 hroom)
    · simp only [heq, Nat.le_refl]
    · exact Nat.le_of_lt (List.pairwise_iff_getElem.1 h.ascending _ _ hilt hjlt hafter)
  · exact absurd hover (Nat.ne_of_lt hlist)

/-- A payload is oversized exactly if no class has room for it. -/
theorem list_eq_oversized_iff (h : t.WellFormed) {n : Nat} :
    (t.classify n).list = t.oversized ↔ ∀ c ∈ t.capacities, c < n := by
  rcases h.classify_cases n with ⟨c, hc, -, hle⟩ | ⟨hlist, -, hlt⟩
  · have hless : (t.classify n).list < t.oversized := (List.getElem?_eq_some_iff.1 hc).1
    constructor
    · intro hover
      exact absurd hover (Nat.ne_of_lt hless)
    · intro hall
      exact absurd (hall c (List.mem_of_getElem? hc)) (Nat.not_lt.2 hle)
  · exact iff_of_true hlist hlt

/-! ## The list of a chunk -/

/-- **A chunk is large enough for a class exactly if it goes on the list of that class or on a later
one.** -/
theorem chunkSize_le_iff (h : t.WellFormed) {n size : Nat}
    (hlist : (t.classify n).list < t.oversized) (hsize : t.smallestChunk ≤ size) :
    (t.classify n).chunkSize ≤ size ↔ (t.classify n).list ≤ t.listForChunk size := by
  obtain ⟨c, hc, heq, -, -⟩ := h.exists_smallest hlist
  rw [heq]
  constructor
  · intro hroom
    exact h.le_listForChunk hc hroom
  · intro hlater
    obtain ⟨d, hd, hroom⟩ := h.capacity_le_of_le_listForChunk hlist hsize hlater
    obtain rfl : d = c := Option.some.inj (hd.symm.trans hc)
    exact hroom

/-- A chunk that is large enough for an oversized payload goes on the list of oversized chunks. -/
theorem listForChunk_of_oversized (h : t.WellFormed) {n bound size : Nat} (hb : bound < maxWord)
    (hle : (t.classify n).chunkSize ≤ bound) (hlist : (t.classify n).list = t.oversized)
    (hroom : (t.classify n).chunkSize ≤ size) : t.listForChunk size = t.oversized := by
  apply h.listForChunk_of_lt
  intro c hc
  have hlong := h.list_eq_oversized_iff.1 hlist c hc
  have hpayload := (h.chunkSize_bounds hb hle).2.2
  omega

end WellFormed

/-! ## Tables of accepted sizes -/

/-- How the requests for payloads up to a length and the lists of free chunks fit together in a table
with a class for each of some sizes. -/
structure Adjoint (t : ClassTable) (sizes : List Nat) (longest : Nat) : Prop where
  /-- The classes are the sizes, rounded up. -/
  mem_capacities_iff : ∀ c, c ∈ t.capacities ↔ ∃ size ∈ sizes, capacityOf size = c
  /-- A chunk is large enough for a class exactly if its list is that of the class or a later one. -/
  chunkSize_le_iff : ∀ n ≤ longest, (t.classify n).list < t.oversized →
    ∀ size, t.smallestChunk ≤ size →
      ((t.classify n).chunkSize ≤ size ↔ (t.classify n).list ≤ t.listForChunk size)
  /-- A chunk that is large enough for an oversized payload is on the list of oversized chunks. -/
  listForChunk_of_oversized : ∀ n ≤ longest, (t.classify n).list = t.oversized →
    ∀ size, (t.classify n).chunkSize ≤ size → t.listForChunk size = t.oversized
  /-- The chunk for a payload, once it is free, goes on the list on which the payload is looked
  for. -/
  listForChunk_chunkSize : ∀ n ≤ longest,
    t.listForChunk (t.classify n).chunkSize = (t.classify n).list
  chunkSize_mod : ∀ n ≤ longest, (t.classify n).chunkSize % 16 = 0
  /-- The chunk for a payload holds it after a header. -/
  room : ∀ n ≤ longest, n + 16 ≤ (t.classify n).chunkSize
  chunkSize_mono : ∀ m n, m ≤ n → n ≤ longest →
    (t.classify m).chunkSize ≤ (t.classify n).chunkSize
  /-- A payload gets a class or is oversized. -/
  list_le : ∀ n ≤ longest, (t.classify n).list ≤ t.oversized
  /-- A payload is oversized exactly if no class has room for it. -/
  list_eq_oversized_iff : ∀ n ≤ longest,
    ((t.classify n).list = t.oversized ↔ ∀ c ∈ t.capacities, c < n)
  /-- The class of a payload is the smallest one with room for it. -/
  smallest : ∀ n ≤ longest, (t.classify n).list < t.oversized →
    ∃ c, t.capacities[(t.classify n).list]? = some c ∧ (t.classify n).chunkSize = c + 16 ∧ n ≤ c ∧
      ∀ d ∈ t.capacities, n ≤ d → c ≤ d

end ClassTable

namespace ChunkSizes

open ClassTable

/-- The table of accepted sizes that leave room in a word is well formed. -/
theorem wellFormed {sizes : ChunkSizes} {given : List Nat} (h : ofList given = .ok sizes)
    (hmax : ∀ n ∈ sizes.toList, n ≤ 2 ^ 63) : (ofSizes sizes.toList).WellFormed := by
  obtain ⟨hne, hascending⟩ := Settings.ofList_eq_ok h
  apply wellFormed_ofSizes _ hne hascending
  intro n hn
  have hcapacity : capacityOf n ≤ capacityOf (2 ^ 63) := capacityOf_mono (hmax n hn)
  exact Nat.le_trans (Nat.add_le_add_right hcapacity headerSize) (by decide)

/-- **Requests and lists fit together**, in the table of any accepted sizes: as long as neither a
size nor a payload exceeds half of the words. -/
theorem adjoint {sizes : ChunkSizes} {given : List Nat} (h : ofList given = .ok sizes)
    (hmax : ∀ n ∈ sizes.toList, n ≤ 2 ^ 63) :
    (ofSizes sizes.toList).Adjoint sizes.toList (2 ^ 63) := by
  have ht := wellFormed h hmax
  -- no chunk that is asked for comes near the largest word
  have hbound : ∀ n ≤ 2 ^ 63, ((ofSizes sizes.toList).classify n).chunkSize ≤ 2 ^ 63 + 16 := by
    intro n hn
    refine ht.chunkSize_le (by decide) ?_ (Nat.add_le_add_right hn 16)
    intro c hc
    obtain ⟨size, hsize, rfl⟩ := List.mem_map.1 ((mem_dropRepeats c _).1 hc)
    have hcapacity : capacityOf size ≤ capacityOf (2 ^ 63) := capacityOf_mono (hmax size hsize)
    exact Nat.add_le_add_right hcapacity 16
  have hword : 2 ^ 63 + 16 < maxWord := by decide
  constructor
  · intro c
    show c ∈ dropRepeats (sizes.toList.map capacityOf) ↔ _
    rw [mem_dropRepeats, List.mem_map]
  · intro n _ hlist size hsize
    exact ht.chunkSize_le_iff hlist hsize
  · intro n hn hlist size hroom
    exact ht.listForChunk_of_oversized hword (hbound n hn) hlist hroom
  · intro n hn
    exact ht.listForChunk_classify hword (hbound n hn)
  · intro n hn
    exact (ht.chunkSize_bounds hword (hbound n hn)).1
  · intro n hn
    exact (ht.chunkSize_bounds hword (hbound n hn)).2.2
  · intro m n hmn _
    exact ht.chunkSize_mono hmn
  · intro n _
    exact Nat.le_of_lt_succ (list_classify_lt _ n)
  · intro n _
    exact ht.list_eq_oversized_iff
  · intro n _ hlist
    exact ht.exists_smallest hlist

/-- Two of these sizes share a class. -/
theorem adjoint_shared : ∃ sizes, ofList [20, 30, 64] = .ok sizes ∧
    (∀ n ∈ sizes.toList, n ≤ 2 ^ 63) ∧ (ofSizes sizes.toList).Adjoint sizes.toList (2 ^ 63) := by
  have haccepted : ofList [20, 30, 64] = .ok ⟨[20, 30, 64]⟩ := by decide
  have hmax : ∀ n ∈ [20, 30, 64], n ≤ 2 ^ 63 := by decide
  exact ⟨_, haccepted, hmax, adjoint haccepted hmax⟩

end ChunkSizes

end ObjectPile
