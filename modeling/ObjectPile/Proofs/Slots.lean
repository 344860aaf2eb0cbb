/-
# Tables of slots

A pile keeps its segments in numbered slots. This module says what the changes that a pile makes to
its table do to the single slots, to sums over all segments and to the end of the table.

* `Pile.total` : a sum over the segments in the slots.
* `Pile.Trimmed` : the table does not end with a vacant slot.
* `join_modify`, `join_occupy`, `join_vacate` : the slots after a change.
* `total_modify`, `total_occupy`, `total_vacate` : the sums after a change.
-/
import Mathlib
import ObjectPile.Pile.Basic

namespace ObjectPile.Pile

/-- The sum of a figure over the segments in the slots. -/
def total (figure : Segment → Nat) (slots : Array (Option Segment)) : Nat :=
  (slots.toList.map fun slot => slot.elim 0 figure).sum

/-- The table does not end with a vacant slot. -/
def Trimmed (slots : Array (Option Segment)) : Prop := slots.back? ≠ some none

variable (figure : Segment → Nat) {slots : Array (Option Segment)} {i j : Nat} {s : Segment}

/-! ## Sums -/

theorem sum_set {ns : List Nat} {m : Nat} (n : Nat) (h : ns[i]? = some m) :
    (ns.set i n).sum + m = ns.sum + n := by
  induction ns generalizing i with
  | nil => simp at h
  | cons k ns ih =>
    cases i with
    | zero =>
      obtain rfl : k = m := by simpa using h
      rw [List.set_cons_zero, List.sum_cons, List.sum_cons]
      omega
    | succ i =>
      have hrest := ih (i := i) (by simpa using h)
      rw [List.set_cons_succ, List.sum_cons, List.sum_cons]
      omega

/-- The sum after a slot is given another content. -/
theorem total_setIfInBounds (slot : Option Segment) {old : Option Segment}
    (h : slots[i]? = some old) :
    total figure (slots.setIfInBounds i slot) + old.elim 0 figure =
      total figure slots + slot.elim 0 figure := by
  unfold total
  rw [Array.toList_setIfInBounds, List.map_set]
  apply sum_set
  rw [List.getElem?_map, Array.getElem?_toList, h]
  rfl

/-- The content of a slot is part of the sum. -/
theorem figure_le_total (h : slots[i]?.join = some s) : figure s ≤ total figure slots := by
  have hmem : some s ∈ slots.toList := by
    rw [Option.join_eq_some_iff] at h
    exact Array.mem_toList_iff.2 (Array.mem_of_getElem? h)
  exact List.le_sum_of_mem (List.mem_map.2 ⟨some s, hmem, rfl⟩)

/-- A segment in the table is in one of the slots. -/
theorem exists_join_of_mem (h : some s ∈ slots.toList) : ∃ i : Nat, slots[i]?.join = some s := by
  obtain ⟨i, hi⟩ := List.mem_iff_getElem?.1 h
  rw [Array.getElem?_toList] at hi
  exact ⟨i, by rw [hi]; rfl⟩

/-- Larger figures have a larger sum. -/
theorem total_mono {f g : Segment → Nat}
    (h : ∀ (i : Nat) (s : Segment), slots[i]?.join = some s → f s ≤ g s) :
    total f slots ≤ total g slots := by
  unfold total
  apply List.sum_le_sum
  intro slot hslot
  cases slot with
  | none => exact Nat.le_refl _
  | some s =>
    obtain ⟨i, hi⟩ := exists_join_of_mem hslot
    exact h i s hi

/-- A sum depends on the figures of the segments alone. -/
theorem total_congr {f g : Segment → Nat}
    (h : ∀ (i : Nat) (s : Segment), slots[i]?.join = some s → f s = g s) :
    total f slots = total g slots := by
  apply Nat.le_antisymm
  · exact total_mono fun i s hs => Nat.le_of_eq (h i s hs)
  · exact total_mono fun i s hs => Nat.le_of_eq (h i s hs).symm

/-- A figure that is the same for all segments counts them. -/
theorem total_const (slots : Array (Option Segment)) (n : Nat) :
    total (fun _ => n) slots = occupied slots * n := by
  unfold total occupied
  rw [← Array.countP_toList]
  induction slots.toList with
  | nil => simp
  | cons slot rest ih =>
    rw [List.map_cons, List.sum_cons, List.countP_cons, ih, Nat.add_mul, Nat.add_comm]
    cases slot <;> simp

/-- Figures that are bounded have a bounded sum. -/
theorem total_le_mul {bound : Nat}
    (h : ∀ (i : Nat) (s : Segment), slots[i]?.join = some s → figure s ≤ bound) :
    total figure slots ≤ occupied slots * bound :=
  calc total figure slots ≤ total (fun _ => bound) slots := total_mono h
    _ = occupied slots * bound := total_const slots bound

/-- The number of segments is a sum. -/
theorem occupied_eq_total (slots : Array (Option Segment)) :
    occupied slots = total (fun _ => 1) slots := by
  rw [total_const, Nat.mul_one]

/-! ## A segment changes -/

/-- The slots after the segment in one of them changes. -/
theorem join_modify (f : Segment → Segment) (slots : Array (Option Segment)) (i j : Nat) :
    (slots.modify i (Option.map f))[j]?.join =
      if j = i then slots[i]?.join.map f else slots[j]?.join := by
  rw [Array.getElem?_modify]
  by_cases hji : j = i
  · subst hji
    simp only [if_true]
    cases slots[j]? with
    | none => rfl
    | some slot => rfl
  · rw [if_neg hji, if_neg fun h => hji h.symm]

/-- Changing the segment in a slot is writing the changed one back. -/
theorem modify_eq_setIfInBounds (f : Segment → Segment) (h : slots[i]?.join = some s) :
    slots.modify i (Option.map f) = slots.setIfInBounds i (some (f s)) := by
  rw [Option.join_eq_some_iff] at h
  refine Array.ext_getElem? ?_
  intro j
  rw [Array.getElem?_modify, Array.getElem?_setIfInBounds]
  have hlt : i < slots.size := (Array.getElem?_eq_some_iff.1 h).1
  by_cases hij : i = j
  · subst hij
    rw [if_pos rfl, if_pos rfl, if_pos hlt, h]
    rfl
  · rw [if_neg hij, if_neg hij]

/-- The sum after the segment in a slot changes. -/
theorem total_modify (f : Segment → Segment) (h : slots[i]?.join = some s) :
    total figure (slots.modify i (Option.map f)) + figure s =
      total figure slots + figure (f s) := by
  rw [modify_eq_setIfInBounds f h]
  exact total_setIfInBounds figure (some (f s)) (Option.join_eq_some_iff.1 h)

theorem Trimmed.modify (f : Segment → Segment) (h : Trimmed slots) (i : Nat) :
    Trimmed (slots.modify i (Option.map f)) := by
  unfold Trimmed at *
  rw [Array.back?_eq_getElem?, Array.size_modify, Array.getElem?_modify]
  rw [Array.back?_eq_getElem?] at h
  split
  · rename_i hi
    subst hi
    cases hslot : slots[slots.size - 1]? with
    | none => simp
    | some slot =>
      cases slot with
      | none => exact absurd hslot h
      | some s => simp
  · exact h

/-! ## A segment is added -/

/-- The slot for a new segment is vacant and not behind the end of the table. -/
theorem vacantSlot_spec (slots : Array (Option Segment)) :
    vacantSlot slots ≤ slots.size ∧ slots[vacantSlot slots]?.join = none := by
  unfold vacantSlot
  cases hfind : slots.findIdx? Option.isNone with
  | none => simp
  | some i =>
    obtain ⟨hlt, hnone, -⟩ := Array.findIdx?_eq_some_iff_getElem.1 hfind
    refine ⟨Nat.le_of_lt hlt, ?_⟩
    rw [Option.getD_some, Array.getElem?_eq_getElem hlt]
    simpa using hnone

/-- The slots after a segment is added. -/
theorem join_occupy (s : Segment) (hi : i ≤ slots.size) (j : Nat) :
    (occupy slots i s)[j]?.join = if j = i then some s else slots[j]?.join := by
  unfold occupy
  split
  · rename_i heq
    subst heq
    rw [Array.getElem?_push]
    split <;> rfl
  · rename_i hne
    rw [Array.getElem?_setIfInBounds]
    by_cases hij : i = j
    · subst hij
      rw [if_pos rfl, if_pos (by omega), if_pos rfl]
      rfl
    · rw [if_neg hij, if_neg fun h => hij h.symm]

/-- The sum after a segment is added. -/
theorem total_occupy (s : Segment) (hi : i ≤ slots.size) (hvacant : slots[i]?.join = none) :
    total figure (occupy slots i s) = total figure slots + figure s := by
  unfold occupy
  split
  · unfold total
    simp
  · rename_i hne
    have hlt : i < slots.size := by omega
    have hold : slots[i]? = some none := by
      rw [Array.getElem?_eq_getElem hlt] at hvacant ⊢
      simpa using hvacant
    simpa using total_setIfInBounds figure (some s) hold

theorem Trimmed.occupy (h : Trimmed slots) (s : Segment) (hi : i ≤ slots.size) :
    Trimmed (occupy slots i s) := by
  unfold Trimmed Pile.occupy at *
  split
  · simp
  · rename_i hne
    rw [Array.back?_eq_getElem?, Array.size_setIfInBounds, Array.getElem?_setIfInBounds]
    rw [Array.back?_eq_getElem?] at h
    split
    · rw [if_pos (by omega)]
      simp
    · exact h

/-! ## A segment is given up -/

/-- Dropping vacant slots at the end changes no slot and no sum, and trims the table. -/
theorem popWhile_spec (slots : Array (Option Segment)) :
    (∀ j : Nat, (slots.popWhile Option.isNone)[j]?.join = slots[j]?.join) ∧
      total figure (slots.popWhile Option.isNone) = total figure slots ∧
        Trimmed (slots.popWhile Option.isNone) := by
  -- the induction is on the table read from its end, where slots are dropped
  obtain ⟨l⟩ := slots
  rw [List.popWhile_toArray]
  obtain ⟨r, rfl⟩ : ∃ r : List (Option Segment), l = r.reverse := ⟨l.reverse, by simp⟩
  rw [List.reverse_reverse]
  unfold total Trimmed
  induction r with
  | nil => simp
  | cons slot r ih =>
    cases slot with
    | some s => simp
    | none =>
      obtain ⟨hjoin, htotal, htrimmed⟩ := ih
      rw [List.dropWhile_cons_of_pos rfl]
      refine ⟨?_, ?_, htrimmed⟩
      · intro j
        rw [hjoin j]
        simp only [List.getElem?_toArray, List.reverse_cons, List.getElem?_append]
        split
        · rfl
        · rename_i hlt
          rw [List.getElem?_eq_none (by omega)]
          cases j - r.reverse.length <;> rfl
      · rw [htotal]
        simp

/-- The slots after a segment is given up. -/
theorem join_vacate (slots : Array (Option Segment)) (i j : Nat) :
    (vacate slots i)[j]?.join = if j = i then none else slots[j]?.join := by
  unfold vacate
  rw [(popWhile_spec (fun _ => 0) _).1, Array.getElem?_setIfInBounds]
  by_cases hij : i = j
  · subst hij
    rw [if_pos rfl, if_pos rfl]
    split <;> rfl
  · rw [if_neg hij, if_neg fun h => hij h.symm]

/-- The sum after a segment is given up. -/
theorem total_vacate (h : slots[i]?.join = some s) :
    total figure (vacate slots i) + figure s = total figure slots := by
  rw [Option.join_eq_some_iff] at h
  unfold vacate
  rw [(popWhile_spec figure _).2.1]
  simpa using total_setIfInBounds figure none h

theorem trimmed_vacate (slots : Array (Option Segment)) (i : Nat) : Trimmed (vacate slots i) :=
  (popWhile_spec (fun _ => 0) _).2.2

end ObjectPile.Pile
