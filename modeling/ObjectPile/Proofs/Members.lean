/-
# Members in order

The members of an object may come in any order, and they are kept in ascending order of their keys.
Nothing else about a value is changed by that, as long as no key comes twice; and a value that is in
order already is kept just as it is.

* `Json.IsOrdered` : the members of all objects are in ascending order.
* `Json.Alike` : values that are the same but for the order of members.
* `Json.isOrdered_sorted`, `Json.sorted_of_isOrdered` : what is in order, and stays as it is.
* `Json.IsPlain`, `Json.IsPlain.alike_sorted` : values without a key that comes twice.
-/
import ObjectPile.Json.Value
import ObjectPile.Size
import Mathlib

namespace ObjectPile.Json

/-- **The members of all objects are in ascending order** of their keys. -/
inductive IsOrdered : Json → Prop
  | null : IsOrdered .null
  | boolean (b : Bool) : IsOrdered (.boolean b)
  | integer (n : Int) : IsOrdered (.integer n)
  | double (x : Binary64) : IsOrdered (.double x)
  | string (s : String) : IsOrdered (.string s)
  | array {items : List Json} : (∀ v ∈ items, IsOrdered v) → IsOrdered (.array items)
  | object {members : List (String × Json)} : (members.map Prod.fst).Pairwise (· < ·) →
      (∀ m ∈ members, IsOrdered m.2) → IsOrdered (.object members)

/-- **Values that are the same** but for the order of members. -/
inductive Alike : Json → Json → Prop
  | refl (v : Json) : Alike v v
  | array {items items' : List Json} : List.Forall₂ Alike items items' →
      Alike (.array items) (.array items')
  | object {members same members' : List (String × Json)} :
      members.map Prod.fst = same.map Prod.fst →
        List.Forall₂ Alike (members.map Prod.snd) (same.map Prod.snd) → same.Perm members' →
          Alike (.object members) (.object members')

/-- **Values without doubles** whose numbers are words of 64 bits, with or without a sign, and whose
objects have no key twice. -/
inductive IsPlain : Json → Prop
  | null : IsPlain .null
  | boolean (b : Bool) : IsPlain (.boolean b)
  | integer {n : Int} : -(maxSigned : Int) - 1 ≤ n → n ≤ maxWord → IsPlain (.integer n)
  | string (s : String) : IsPlain (.string s)
  | array {items : List Json} : (∀ v ∈ items, IsPlain v) → IsPlain (.array items)
  | object {members : List (String × Json)} : (members.map Prod.fst).Nodup →
      (∀ m ∈ members, IsPlain m.2) → IsPlain (.object members)

/-! ## Inserting -/

section Inserting

variable {key : String} {value : Json} {members : List (String × Json)}

theorem mem_insertMember {m : String × Json} (h : m ∈ insertMember key value members) :
    m = (key, value) ∨ m ∈ members := by
  induction members with
  | nil => exact .inl (List.mem_singleton.1 h)
  | cons m' rest ih =>
    rw [insertMember] at h
    split_ifs at h with hlt heq
    · exact List.mem_cons.1 h
    · exact (List.mem_cons.1 h).imp_right (List.mem_cons_of_mem _)
    · rcases List.mem_cons.1 h with rfl | h
      · exact .inr List.mem_cons_self
      · exact (ih h).imp_right (List.mem_cons_of_mem _)

theorem pairwise_insertMember (h : (members.map Prod.fst).Pairwise (· < ·)) :
    ((insertMember key value members).map Prod.fst).Pairwise (· < ·) := by
  induction members with
  | nil => exact List.pairwise_singleton _ _
  | cons m rest ih =>
    obtain ⟨hfirst, hrest⟩ := List.pairwise_cons.1 h
    rw [insertMember]
    split_ifs with hlt heq
    · refine List.pairwise_cons.2 ⟨?_, h⟩
      intro k hk
      rcases List.mem_cons.1 hk with rfl | hk
      · exact hlt
      · exact hlt.trans (hfirst k hk)
    · subst heq
      exact List.pairwise_cons.2 ⟨hfirst, hrest⟩
    · refine List.pairwise_cons.2 ⟨?_, ih hrest⟩
      intro k hk
      obtain ⟨m', hm', rfl⟩ := List.mem_map.1 hk
      rcases mem_insertMember hm' with rfl | hm'
      · exact lt_of_le_of_ne (not_lt.1 hlt) (Ne.symm heq)
      · exact hfirst _ (List.mem_map_of_mem hm')

/-- A member with a new key comes in besides the others. -/
theorem perm_insertMember (h : key ∉ members.map Prod.fst) :
    (insertMember key value members).Perm ((key, value) :: members) := by
  induction members with
  | nil => rfl
  | cons m rest ih =>
    rw [List.map_cons, List.mem_cons, not_or] at h
    rw [insertMember, if_neg h.1]
    split_ifs with hlt
    · rfl
    · exact ((ih h.2).cons m).trans (.swap _ _ _)

/-- A member with a key beyond all others comes in behind them. -/
theorem insertMember_of_lt (h : ∀ k ∈ members.map Prod.fst, k < key) :
    insertMember key value members = members ++ [(key, value)] := by
  induction members with
  | nil => rfl
  | cons m rest ih =>
    have hlt := h m.1 List.mem_cons_self
    rw [insertMember, if_neg hlt.not_gt, if_neg hlt.ne', ih fun k hk =>
      h k (List.mem_cons_of_mem _ hk)]
    rfl

end Inserting

/-! ## Sorting -/

/-- A member with its value in order. -/
def sortedMember (m : String × Json) : String × Json := (m.1, m.2.sorted)

theorem sortedItems_eq_map (items : List Json) : sortedItems items = items.map sorted := by
  induction items with
  | nil => rfl
  | cons v vs ih => rw [sortedItems, ih, List.map_cons]

/-- With new keys all members come in, in some order. -/
theorem perm_sortedMembers {members done : List (String × Json)}
    (h : ((done ++ members).map Prod.fst).Nodup) :
    (sortedMembers done members).Perm (done ++ members.map sortedMember) := by
  induction members generalizing done with
  | nil => rw [sortedMembers, List.map_nil, List.append_nil]
  | cons m rest ih =>
    have hmoved : (done ++ m :: rest).Perm (m :: done ++ rest) := List.perm_middle
    have hnodup := (hmoved.map Prod.fst).nodup_iff.1 h
    rw [List.cons_append, List.map_cons, List.map_append] at hnodup
    have hnew : m.1 ∉ done.map Prod.fst := fun hm =>
      (List.nodup_cons.1 hnodup).1 (List.mem_append_left _ hm)
    have hinserted : (insertMember m.1 m.2.sorted done).Perm (sortedMember m :: done) :=
      perm_insertMember hnew
    have hrest := (hinserted.append_right rest).map Prod.fst
    refine (ih (hrest.nodup_iff.2 ?_)).trans ((hinserted.append_right _).trans ?_)
    · rw [List.cons_append, List.map_cons, List.map_append]
      exact hnodup
    · exact List.perm_middle.symm

/-- With keys in ascending order all members come in one behind the other. -/
theorem sortedMembers_of_pairwise {members done : List (String × Json)}
    (h : ((done ++ members).map Prod.fst).Pairwise (· < ·)) :
    sortedMembers done members = done ++ members.map sortedMember := by
  induction members generalizing done with
  | nil => rw [sortedMembers, List.map_nil, List.append_nil]
  | cons m rest ih =>
    rw [List.map_append] at h
    have hbefore : ∀ k ∈ done.map Prod.fst, k < m.1 := fun k hk =>
      (List.pairwise_append.1 h).2.2 k hk _ List.mem_cons_self
    have hall : ((done ++ [sortedMember m] ++ rest).map Prod.fst).Pairwise (· < ·) := by
      rw [List.append_assoc, List.map_append]
      exact h
    rw [sortedMembers, insertMember_of_lt hbefore]
    refine (ih hall).trans ?_
    rw [List.append_assoc]
    rfl

mutual

/-- **What is sorted is in order.** -/
theorem isOrdered_sorted : (v : Json) → v.sorted.IsOrdered
  | .null => .null
  | .boolean b => .boolean b
  | .integer n => .integer n
  | .double x => .double x
  | .string s => .string s
  | .array items => .array (isOrdered_sortedItems items)
  | .object members => isOrdered_sortedMembers members (.object .nil nofun)

theorem isOrdered_sortedItems : (items : List Json) → ∀ v ∈ sortedItems items, v.IsOrdered
  | [] => nofun
  | v :: vs => List.forall_mem_cons.2 ⟨isOrdered_sorted v, isOrdered_sortedItems vs⟩

/-- Members that come into an object in order leave it so. -/
theorem isOrdered_sortedMembers : (members : List (String × Json)) →
    {done : List (String × Json)} → (object done).IsOrdered →
      (object (sortedMembers done members)).IsOrdered
  | [], _, h => h
  | (k, v) :: rest, done, .object hkeys hvalues => by
    refine isOrdered_sortedMembers rest (.object (pairwise_insertMember hkeys) ?_)
    intro m hm
    rcases mem_insertMember hm with rfl | hm
    · exact isOrdered_sorted v
    · exact hvalues m hm

end

/-- **What is in order stays as it is.** -/
theorem sorted_of_isOrdered {v : Json} (h : v.IsOrdered) : v.sorted = v := by
  induction h with
  | array _ ih =>
    rw [sorted, sortedItems_eq_map, List.map_congr_left ih, List.map_id']
  | @object members hkeys _ ih =>
    have hsame : ∀ m ∈ members, sortedMember m = m := fun m hm => Prod.ext rfl (ih m hm)
    have hsorted : sortedMembers [] members = members.map sortedMember :=
      sortedMembers_of_pairwise hkeys
    rw [sorted, hsorted, List.map_congr_left hsame, List.map_id']
  | _ => rfl

/-- **Without a key that comes twice nothing but the order changes.** -/
theorem IsPlain.alike_sorted {v : Json} (h : v.IsPlain) : v.Alike v.sorted := by
  induction h with
  | array _ ih =>
    rw [sorted, sortedItems_eq_map]
    exact .array (List.forall₂_map_right_iff.2 (List.forall₂_same.2 ih))
  | @object members hkeys _ ih =>
    have hperm : (sortedMembers [] members).Perm (members.map sortedMember) :=
      perm_sortedMembers hkeys
    refine .object ?_ ?_ hperm.symm
    · rw [List.map_map]
      rfl
    · rw [List.map_map, List.forall₂_map_right_iff, List.forall₂_map_left_iff]
      exact List.forall₂_same.2 ih
  | _ => exact .refl _

end ObjectPile.Json
