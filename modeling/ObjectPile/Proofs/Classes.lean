/-
# Classes of requests and of free chunks

A payload is sent to a class by its length and a free chunk to a list by its size. This module holds
the facts that make the two fit together, for every table whose capacities ascend and are aligned.

* `ClassTable.wellFormed_ofSizes` : the table made from ascending sizes is such a table.
* `ClassTable.capacity_le_of_le_listForChunk` : a chunk on the list of a class, or on a later list,
  has room for that class.
* `ClassTable.list_classify_le` : a chunk with room for a payload goes on the list of its class or
  on a later one.
* `ClassTable.listForChunk_of_class` : the chunks of a class go on its list.
* `ClassTable.chunkSize_bounds` : the chunk asked for has room for the payload.
* `ClassTable.chunkSize_mono` : longer payloads do not ask for smaller chunks.
-/
import Mathlib
import ObjectPile.Segment.Basic

namespace ObjectPile

namespace ClassTable

/-! ## Leading items -/

/-- Every item among the leading ones passes the test. -/
theorem exists_of_lt_leading (p : Nat → Bool) (ns : List Nat) (i : Nat)
    (hi : i < leading p ns) : ∃ n, ns[i]? = some n ∧ p n = true := by
  induction ns generalizing i with
  | nil => simp [leading] at hi
  | cons n ns ih =>
    by_cases hp : p n = true
    · cases i with
      | zero => exact ⟨n, rfl, hp⟩
      | succ i =>
        have hi' : i < leading p ns := by
          simpa [leading, List.takeWhile_cons, hp] using hi
        simpa using ih i hi'
    · simp [leading, hp] at hi

/-- The item after the leading ones fails the test. -/
theorem not_of_getElem?_leading (p : Nat → Bool) (ns : List Nat) (n : Nat)
    (h : ns[leading p ns]? = some n) : p n = false := by
  induction ns with
  | nil => simp at h
  | cons m ns ih =>
    by_cases hp : p m = true
    · have h' : ns[leading p ns]? = some n := by
        simpa [leading, List.takeWhile_cons, hp] using h
      exact ih h'
    · have hm : m = n := by simpa [leading, List.takeWhile_cons, hp] using h
      simpa [hm] using hp

/-- If all items are leading ones, each of them passes the test. -/
theorem forall_of_leading_eq_length (p : Nat → Bool) (ns : List Nat)
    (h : leading p ns = ns.length) : ∀ n ∈ ns, p n = true := by
  intro n hn
  obtain ⟨i, hi, hget⟩ := List.mem_iff_getElem.1 hn
  obtain ⟨m, hm, hp⟩ := exists_of_lt_leading p ns i (by omega)
  rw [List.getElem?_eq_getElem hi, hget] at hm
  exact (Option.some.inj hm) ▸ hp

/-- If the items up to one of them pass the test, it is among the leading ones. -/
theorem lt_leading (p : Nat → Bool) (ns : List Nat) {i : Nat} (hi : i < ns.length)
    (h : ∀ j ≤ i, ∀ n, ns[j]? = some n → p n = true) : i < leading p ns := by
  by_contra hle
  have hlt : leading p ns < ns.length := by omega
  have hget := List.getElem?_eq_getElem hlt
  have hnot := not_of_getElem?_leading p ns _ hget
  rw [h _ (by omega) _ hget] at hnot
  exact Bool.noConfusion hnot

/-- A weaker test lets more items lead. -/
theorem leading_mono {p q : Nat → Bool} (h : ∀ n, p n = true → q n = true) (ns : List Nat) :
    leading p ns ≤ leading q ns := by
  rcases Nat.eq_zero_or_pos (leading p ns) with hzero | hpos
  · omega
  · have hle := leading_le p ns
    have hlt : leading p ns - 1 < leading q ns := by
      refine lt_leading q ns (by omega) ?_
      intro j hj n hn
      obtain ⟨m, hm, hp⟩ := exists_of_lt_leading p ns j (by omega)
      rw [hn] at hm
      exact h n ((Option.some.inj hm) ▸ hp)
    omega

/-! ## Well-formed tables -/

/-- The capacities of a table ascend, are aligned, leave room for the links of a free chunk and do
not run out of a word together with a header. -/
structure WellFormed (t : ClassTable) : Prop where
  nonempty : t.capacities ≠ []
  ascending : t.capacities.Pairwise (· < ·)
  aligned : ∀ c ∈ t.capacities, c % 16 = 0
  minCapacity_le : ∀ c ∈ t.capacities, minCapacity ≤ c
  le_maxWord : ∀ c ∈ t.capacities, c + headerSize ≤ maxWord

theorem mem_dropRepeats (n : Nat) (ns : List Nat) : n ∈ dropRepeats ns ↔ n ∈ ns := by
  fun_induction dropRepeats ns with
  | case1 => simp
  | case2 => simp
  | case3 ns m ih => rw [ih]; simp
  | case4 m k ns hne ih =>
    rw [List.mem_cons, ih]
    exact List.mem_cons.symm

/-- Without repeats an ascending list ascends strictly. -/
theorem pairwise_lt_dropRepeats (ns : List Nat) (h : ns.Pairwise (· ≤ ·)) :
    (dropRepeats ns).Pairwise (· < ·) := by
  fun_induction dropRepeats ns with
  | case1 => exact List.Pairwise.nil
  | case2 n => exact List.pairwise_singleton _ n
  | case3 ns m ih => exact ih (List.pairwise_cons.1 h).2
  | case4 m k ns hne ih =>
    obtain ⟨hm, hrest⟩ := List.pairwise_cons.1 h
    refine List.pairwise_cons.2 ⟨?_, ih hrest⟩
    intro n hn
    have hk : m ≤ k := hm k (by simp)
    rcases List.mem_cons.1 ((mem_dropRepeats n (k :: ns)).1 hn) with rfl | hn'
    · omega
    · have hkn : k ≤ n := (List.pairwise_cons.1 hrest).1 n hn'
      omega

theorem capacityOf_mono {a b : Nat} (h : a ≤ b) : capacityOf a ≤ capacityOf b := by
  have := roundUp_mono h
  unfold capacityOf
  omega

/-- A capacity is the least aligned number that is not below the size and the smallest room. -/
theorem capacityOf_bounds (size : Nat) :
    size ≤ capacityOf size ∧ capacityOf size % 16 = 0 ∧ minCapacity ≤ capacityOf size := by
  have h := le_roundUp size
  have hm := roundUp_mod size
  unfold capacityOf minCapacity
  rcases Nat.le_total (roundUp size) 16 with hle | hle
  · rw [Nat.max_eq_right hle]
    omega
  · rw [Nat.max_eq_left hle]
    omega

/-- The table made from ascending sizes is well formed. -/
theorem wellFormed_ofSizes (sizes : List Nat) (hne : sizes ≠ []) (hlt : sizes.Pairwise (· < ·))
    (hmax : ∀ n ∈ sizes, capacityOf n + headerSize ≤ maxWord) : (ofSizes sizes).WellFormed := by
  have hmem : ∀ c, c ∈ (ofSizes sizes).capacities → ∃ n ∈ sizes, capacityOf n = c := by
    intro c hc
    exact List.mem_map.1 ((mem_dropRepeats c _).1 hc)
  refine ⟨?_, ?_, ?_, ?_, ?_⟩
  · obtain ⟨n, hn⟩ := List.exists_mem_of_ne_nil sizes hne
    have hc : capacityOf n ∈ (ofSizes sizes).capacities :=
      (mem_dropRepeats _ _).2 (List.mem_map_of_mem hn)
    exact List.ne_nil_of_mem hc
  · apply pairwise_lt_dropRepeats
    rw [List.pairwise_map]
    exact hlt.imp fun h => capacityOf_mono (Nat.le_of_lt h)
  · intro c hc
    obtain ⟨n, -, rfl⟩ := hmem c hc
    exact (capacityOf_bounds n).2.1
  · intro c hc
    obtain ⟨n, -, rfl⟩ := hmem c hc
    exact (capacityOf_bounds n).2.2
  · intro c hc
    obtain ⟨n, hn, rfl⟩ := hmem c hc
    exact hmax n hn

namespace WellFormed

variable {t : ClassTable}

/-! ## The smallest chunk -/

/-- The smallest chunk is that of the first class. -/
theorem exists_smallestChunk_eq (h : t.WellFormed) :
    ∃ c ∈ t.capacities, t.smallestChunk = c + headerSize ∧ ∀ d ∈ t.capacities, c ≤ d := by
  cases hc : t.capacities with
  | nil => exact absurd hc h.nonempty
  | cons c cs =>
    have hmem : c ∈ t.capacities := by rw [hc]; exact List.mem_cons_self
    refine ⟨c, List.mem_cons_self, ?_, ?_⟩
    · rw [smallestChunk, hc, List.headD_cons, satAdd_eq_add (h.le_maxWord c hmem)]
    · intro d hd
      have hp := h.ascending
      rw [hc, List.pairwise_cons] at hp
      rcases List.mem_cons.1 hd with rfl | hd
      · exact Nat.le_refl _
      · exact Nat.le_of_lt (hp.1 d hd)

/-- Every chunk has room for a header and the links of a free chunk. -/
theorem le_smallestChunk (h : t.WellFormed) : 32 ≤ t.smallestChunk := by
  obtain ⟨c, hc, heq, -⟩ := h.exists_smallestChunk_eq
  have := h.minCapacity_le c hc
  unfold minCapacity headerSize at *
  omega

theorem smallestChunk_le_of_mem (h : t.WellFormed) {c : Nat} (hc : c ∈ t.capacities) :
    t.smallestChunk ≤ c + headerSize := by
  obtain ⟨d, -, heq, hle⟩ := h.exists_smallestChunk_eq
  have := hle c hc
  omega

/-! ## Requests -/

/-- A request goes to the first class with room for the payload, or it is oversized and larger than
every class. -/
theorem classify_cases (h : t.WellFormed) (n : Nat) :
    (∃ c, t.capacities[(t.classify n).list]? = some c ∧
      (t.classify n).chunkSize = c + headerSize ∧ n ≤ c) ∨
    ((t.classify n).list = t.oversized ∧
      (t.classify n).chunkSize = satAdd (capacityOf n) headerSize ∧ ∀ c ∈ t.capacities, c < n) := by
  rw [classify]
  split
  · rename_i c hc
    left
    refine ⟨c, hc, satAdd_eq_add (h.le_maxWord c (List.mem_of_getElem? hc)), ?_⟩
    simpa using not_of_getElem?_leading _ _ _ hc
  · rename_i hnone
    right
    refine ⟨rfl, rfl, ?_⟩
    intro c hc
    have hle := leading_le (fun capacity => capacity < n) t.capacities
    have hlen : leading (fun capacity => capacity < n) t.capacities = t.capacities.length := by
      rw [List.getElem?_eq_none_iff] at hnone
      omega
    simpa using forall_of_leading_eq_length _ _ hlen c hc

/-- As long as it does not run out of a word, the chunk asked for is aligned, not smaller than the
smallest one and has room for the payload. -/
theorem chunkSize_bounds (h : t.WellFormed) {n bound : Nat} (hb : bound < maxWord)
    (hle : (t.classify n).chunkSize ≤ bound) :
    (t.classify n).chunkSize % 16 = 0 ∧ t.smallestChunk ≤ (t.classify n).chunkSize ∧
      n + headerSize ≤ (t.classify n).chunkSize := by
  rcases h.classify_cases n with ⟨c, hc, hsize, hn⟩ | ⟨-, hsize, hlt⟩
  · have hmem := List.mem_of_getElem? hc
    have hal := h.aligned c hmem
    have hsmall := h.smallestChunk_le_of_mem hmem
    rw [hsize]
    unfold headerSize at *
    omega
  · obtain ⟨c, hc, heq, -⟩ := h.exists_smallestChunk_eq
    have hcn := hlt c hc
    have hcap := capacityOf_bounds n
    -- a sum that was cut off would be the largest word, and that is above the bound
    have hsum : satAdd (capacityOf n) headerSize = capacityOf n + headerSize := by
      apply satAdd_eq_add
      unfold satAdd at hsize
      omega
    rw [hsize, hsum]
    unfold headerSize at *
    omega

/-- A payload that leaves room for a header in an aligned stretch asks for a chunk that fits into
that stretch, provided every class does. -/
theorem chunkSize_le (h : t.WellFormed) {n bound : Nat} (hal : bound % 16 = 0)
    (hfit : ∀ c ∈ t.capacities, c + headerSize ≤ bound) (hn : n + headerSize ≤ bound) :
    (t.classify n).chunkSize ≤ bound := by
  rcases h.classify_cases n with ⟨c, hc, hsize, -⟩ | ⟨-, hsize, hlt⟩
  · rw [hsize]
    exact hfit c (List.mem_of_getElem? hc)
  · obtain ⟨c, hc⟩ := List.exists_mem_of_ne_nil _ h.nonempty
    have hcn := hlt c hc
    have hmin := h.minCapacity_le c hc
    -- rounding up cannot pass `bound`, which is aligned itself
    have hround : roundUp n ≤ bound - headerSize := by
      apply roundUp_le
      · omega
      · unfold headerSize at *
        omega
    have hcap : capacityOf n + headerSize ≤ bound := by
      unfold capacityOf minCapacity headerSize at *
      omega
    rw [hsize]
    exact Nat.le_trans (Nat.min_le_left _ _) hcap

/-- **Longer payloads ask for chunks that are not smaller.** -/
theorem chunkSize_mono (h : t.WellFormed) {a b : Nat} (hab : a ≤ b) :
    (t.classify a).chunkSize ≤ (t.classify b).chunkSize := by
  have hsat : ∀ {m n : Nat}, m ≤ n → satAdd m headerSize ≤ satAdd n headerSize := by
    intro m n hmn
    unfold satAdd
    omega
  -- a class that is too small for the shorter payload is too small for the longer one
  have hlead : leading (fun c => c < a) t.capacities ≤ leading (fun c => c < b) t.capacities := by
    refine leading_mono ?_ t.capacities
    intro c hc
    exact decide_eq_true (Nat.lt_of_lt_of_le (of_decide_eq_true hc) hab)
  unfold classify
  simp only
  cases hb : t.capacities[leading (fun c => c < b) t.capacities]? with
  | some d =>
    obtain ⟨hlt, rfl⟩ := List.getElem?_eq_some_iff.1 hb
    rw [List.getElem?_eq_getElem (Nat.lt_of_le_of_lt hlead hlt)]
    refine hsat ?_
    rcases Nat.lt_or_eq_of_le hlead with hless | heq
    · exact Nat.le_of_lt (List.pairwise_iff_getElem.1 h.ascending _ _ _ _ hless)
    · simp only [heq, Nat.le_refl]
  | none =>
    have hall : ∀ c ∈ t.capacities, c < b := by
      intro c hc
      have hle := leading_le (fun c => c < b) t.capacities
      have hlen : leading (fun c => c < b) t.capacities = t.capacities.length :=
        Nat.le_antisymm hle (List.getElem?_eq_none_iff.1 hb)
      exact of_decide_eq_true (forall_of_leading_eq_length _ _ hlen c hc)
    cases ha : t.capacities[leading (fun c => c < a) t.capacities]? with
    | some c =>
      have hc := hall c (List.mem_of_getElem? ha)
      exact hsat (Nat.le_trans (Nat.le_of_lt hc) (capacityOf_bounds b).1)
    | none => exact hsat (capacityOf_mono hab)

/-! ## Lists for free chunks -/

/-- A free chunk on the list of a class, or on a later list, has room for that class. -/
theorem capacity_le_of_le_listForChunk (h : t.WellFormed) {i size : Nat} (hi : i < t.oversized)
    (hsize : t.smallestChunk ≤ size) (hle : i ≤ t.listForChunk size) :
    ∃ c, t.capacities[i]? = some c ∧ c + headerSize ≤ size := by
  have hroom : headerSize ≤ size := by
    have := h.le_smallestChunk
    unfold headerSize
    omega
  -- it is enough that class `i` is among those that fit into the chunk
  suffices hlt : i < leading (fun c => c ≤ size - headerSize) t.capacities by
    obtain ⟨c, hc, hle⟩ := exists_of_lt_leading _ _ _ hlt
    refine ⟨c, hc, ?_⟩
    have : c ≤ size - headerSize := by simpa using hle
    omega
  unfold listForChunk at hle
  unfold oversized at hi hle
  simp only at hle
  split at hle
  · rename_i hall
    omega
  · by_cases hzero : leading (fun c => c ≤ size - headerSize) t.capacities = 0
    · -- the first class always fits, so the row of fitting classes is not empty
      exfalso
      cases hcs : t.capacities with
      | nil => exact h.nonempty hcs
      | cons c cs =>
        have hc : c ∈ t.capacities := by rw [hcs]; exact List.mem_cons_self
        have hfit : c ≤ size - headerSize := by
          obtain ⟨d, hd, heq, hmin⟩ := h.exists_smallestChunk_eq
          have : t.smallestChunk = c + headerSize := by
            rw [smallestChunk, hcs, List.headD_cons, satAdd_eq_add (h.le_maxWord c hc)]
          omega
        simp [hcs, leading, hfit] at hzero
    · omega

/-- The classes up to one of them fit into its capacity, and no other. -/
theorem leading_eq (h : t.WellFormed) {i c : Nat} (hc : t.capacities[i]? = some c) :
    leading (fun d => d ≤ c) t.capacities = i + 1 := by
  obtain ⟨hi, rfl⟩ := List.getElem?_eq_some_iff.1 hc
  have hascending := List.pairwise_iff_getElem.1 h.ascending
  have hge : ¬leading (fun d => d ≤ t.capacities[i]) t.capacities ≤ i := by
    intro hle
    have hlt : leading (fun d => d ≤ t.capacities[i]) t.capacities < t.capacities.length := by omega
    have hnot := not_of_getElem?_leading _ _ _ (List.getElem?_eq_getElem hlt)
    rcases Nat.lt_or_eq_of_le hle with hbefore | heq
    · have hless := hascending _ _ hlt hi hbefore
      simp only [decide_eq_false_iff_not] at hnot
      omega
    · simp [heq] at hnot
  have hle : ¬i + 1 < leading (fun d => d ≤ t.capacities[i]) t.capacities := by
    intro hlt
    obtain ⟨d, hd, hfits⟩ := exists_of_lt_leading _ _ _ hlt
    obtain ⟨hnext, rfl⟩ := List.getElem?_eq_some_iff.1 hd
    have hless := hascending _ _ hi hnext (Nat.lt_succ_self i)
    simp only [decide_eq_true_iff] at hfits
    omega
  omega

/-- **A chunk of a class goes on the list of that class.** -/
theorem listForChunk_of_class (h : t.WellFormed) {i c : Nat} (hc : t.capacities[i]? = some c) :
    t.listForChunk (c + headerSize) = i := by
  unfold listForChunk
  simp only [Nat.add_sub_cancel]
  rw [h.leading_eq hc, if_neg, Nat.add_sub_cancel]
  rintro ⟨hlast, hany⟩
  -- the last class that fits is this one, which is not smaller than itself
  rw [List.getLast?_eq_getElem?, ← hlast, Nat.add_sub_cancel, hc] at hany
  simp at hany

/-- A chunk with room for a class goes on the list of that class or on a later one. -/
theorem le_listForChunk (h : t.WellFormed) {i c size : Nat} (hc : t.capacities[i]? = some c)
    (hle : c + headerSize ≤ size) : i ≤ t.listForChunk size := by
  obtain ⟨hi, -⟩ := List.getElem?_eq_some_iff.1 hc
  have hlead : i + 1 ≤ leading (fun d => d ≤ size - headerSize) t.capacities := by
    rw [← h.leading_eq hc]
    refine leading_mono ?_ t.capacities
    intro d hd
    have hdc : d ≤ c := of_decide_eq_true hd
    exact decide_eq_true (by omega)
  unfold listForChunk
  simp only
  split
  · exact Nat.le_of_lt hi
  · omega

/-- A chunk larger than all classes ask for goes on the list of oversized chunks. -/
theorem listForChunk_of_lt (h : t.WellFormed) {size : Nat}
    (hlt : ∀ c ∈ t.capacities, c + headerSize < size) : t.listForChunk size = t.oversized := by
  have hfits : ∀ c ∈ t.capacities, decide (c ≤ size - headerSize) = true := by
    intro c hc
    have := hlt c hc
    exact decide_eq_true (by omega)
  unfold listForChunk
  simp only
  rw [if_pos]
  refine ⟨?_, ?_⟩
  · unfold leading
    rw [List.takeWhile_eq_self_iff.2 hfits]
  · cases hlast : t.capacities.getLast? with
    | none => exact absurd (List.getLast?_eq_none_iff.1 hlast) h.nonempty
    | some c =>
      have := hlt c (List.mem_of_getLast? hlast)
      rw [Option.any_some, decide_eq_true_iff]
      omega

/-- **A free chunk with room for a payload is on the list on which the payload is looked for, or on
a later one.** -/
theorem list_classify_le (h : t.WellFormed) {n size : Nat} (hsize : size < maxWord)
    (hfits : (t.classify n).chunkSize ≤ size) : (t.classify n).list ≤ t.listForChunk size := by
  rcases h.classify_cases n with ⟨c, hc, heq, -⟩ | ⟨hlist, -, hlt⟩
  · rw [heq] at hfits
    exact h.le_listForChunk hc hfits
  · -- a chunk for a payload that is too long for every class is too large for them as well
    have hroom := (h.chunkSize_bounds hsize hfits).2.2
    rw [hlist, h.listForChunk_of_lt]
    intro c hc
    have := hlt c hc
    omega

/-- The chunk that a payload asks for goes on the list on which the payload is looked for, as long as
it does not run out of a word. -/
theorem listForChunk_classify (h : t.WellFormed) {n bound : Nat} (hb : bound < maxWord)
    (hle : (t.classify n).chunkSize ≤ bound) :
    t.listForChunk (t.classify n).chunkSize = (t.classify n).list := by
  rcases h.classify_cases n with ⟨c, hc, hsize, -⟩ | ⟨hlist, -, hlt⟩
  · rw [hsize]
    exact h.listForChunk_of_class hc
  · rw [hlist]
    refine h.listForChunk_of_lt ?_
    intro c hc
    have hroom := (h.chunkSize_bounds hb hle).2.2
    have := hlt c hc
    omega

end WellFormed

end ClassTable

end ObjectPile
