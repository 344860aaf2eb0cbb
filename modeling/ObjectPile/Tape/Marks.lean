/-
# Marks

A tape of marks, none of them set at first, and the search for the last mark before a place. The
search passes over untouched pages at once, so that its cost depends on the marks near the place and
not on the distance.

* `Marks.last?_eq_some_iff` and `Marks.last?_eq_none_iff` say what the search finds.
-/
import ObjectPile.Tape

namespace ObjectPile

/-- A row of marks. -/
abbrev Marks := Tape Bool false

namespace Marks

/-- The last of the first `n` marks on a page that is set. -/
def lastOnPage? (cells : Array Bool) : Nat → Option Nat
  | 0 => none
  | n + 1 => if cells.getD n false then some n else lastOnPage? cells n

/-- The last of the first `n` marks on page `k` that is set. -/
def lastOn? (t : Marks) (k n : Nat) : Option Nat :=
  lastOnPage? (t.page k) (min n (t.page k).size)

/-- The last mark set among the first `n` ones on page `k` and all those on the pages before it. -/
def lastFrom? (t : Marks) : Nat → Nat → Option Nat
  | 0, n => t.lastOn? 0 n
  | k + 1, n =>
    match t.lastOn? (k + 1) n with
    | some i => some ((k + 1) * Tape.pageSize + i)
    | none => t.lastFrom? k Tape.pageSize

/-- The last of the first `n` marks that is set. -/
def last? (t : Marks) (n : Nat) : Option Nat :=
  t.lastFrom? (n / Tape.pageSize) (n % Tape.pageSize)

/-! ## What is found -/

/-- Whether a place is the last of the first `n` at which `f` holds, or there is no such place. -/
def IsLast (f : Nat → Bool) (n : Nat) : Option Nat → Prop
  | none => ∀ j < n, f j = false
  | some i => i < n ∧ f i = true ∧ ∀ j, i < j → j < n → f j = false

theorem IsLast.eq_some_iff {f : Nat → Bool} {n : Nat} {r : Option Nat} (h : IsLast f n r)
    (i : Nat) : r = some i ↔ IsLast f n (some i) := by
  constructor
  · rintro rfl
    exact h
  · intro hi
    cases r with
    | none => exact absurd hi.2.1 (by simp [h i hi.1])
    | some k =>
      obtain ⟨hk, hfk, hck⟩ := h
      obtain ⟨hi, hfi, hci⟩ := hi
      rcases Nat.lt_trichotomy i k with hlt | heq | hlt
      · exact absurd hfk (by simp [hci k hlt hk])
      · rw [heq]
      · exact absurd hfi (by simp [hck i hlt hi])

theorem IsLast.eq_none_iff {f : Nat → Bool} {n : Nat} {r : Option Nat} (h : IsLast f n r) :
    r = none ↔ IsLast f n none := by
  constructor
  · rintro rfl
    exact h
  · intro hn
    cases r with
    | none => rfl
    | some k => exact absurd h.2.1 (by simp [hn k h.1])

theorem IsLast.congr {f g : Nat → Bool} {n : Nat} {r : Option Nat} (h : IsLast f n r)
    (hfg : ∀ j < n, f j = g j) : IsLast g n r := by
  cases r with
  | none => exact fun j hj => hfg j hj ▸ h j hj
  | some i => exact ⟨h.1, hfg i h.1 ▸ h.2.1, fun j hij hj => hfg j hj ▸ h.2.2 j hij hj⟩

/-- What is last in the second of two stretches is last in both. -/
theorem IsLast.append_some {f : Nat → Bool} {m n i : Nat}
    (h : IsLast (fun j => f (m + j)) n (some i)) : IsLast f (m + n) (some (m + i)) := by
  obtain ⟨hi, hset, hclear⟩ := h
  refine ⟨by omega, hset, fun j hij hj => ?_⟩
  have hc : f (m + (j - m)) = false := hclear (j - m) (by omega) (by omega)
  rwa [show m + (j - m) = j by omega] at hc

/-- Where the second of two stretches holds nothing, the first one decides. -/
theorem IsLast.append_none {f : Nat → Bool} {m n : Nat} {r : Option Nat}
    (h : IsLast (fun j => f (m + j)) n none) (hr : IsLast f m r) : IsLast f (m + n) r := by
  have hclear : ∀ j, m ≤ j → j < m + n → f j = false := fun j hj hn => by
    have hc : f (m + (j - m)) = false := h (j - m) (by omega)
    rwa [show m + (j - m) = j by omega] at hc
  cases r with
  | none =>
    intro j hj
    by_cases hjm : j < m
    · exact hr j hjm
    · exact hclear j (by omega) hj
  | some i =>
    obtain ⟨hi, hset, hbetween⟩ := hr
    refine ⟨by omega, hset, fun j hij hj => ?_⟩
    by_cases hjm : j < m
    · exact hbetween j hij hjm
    · exact hclear j (by omega) hj

theorem isLast_lastOnPage? (cells : Array Bool) (n : Nat) :
    IsLast (fun i => cells.getD i false) n (lastOnPage? cells (min n cells.size)) := by
  suffices h : ∀ m, m ≤ n → (∀ j, m ≤ j → cells.getD j false = false ∨ n ≤ j) →
      IsLast (fun i => cells.getD i false) n (lastOnPage? cells m) by
    apply h _ (Nat.min_le_left _ _)
    intro j hj
    by_cases hn : n ≤ j
    · exact .inr hn
    · left
      rw [Array.getD_eq_getD_getElem?, Array.getElem?_eq_none (by omega), Option.getD_none]
  intro m hm hclear
  induction m with
  | zero =>
    intro j hj
    exact (hclear j (Nat.zero_le j)).resolve_right (by omega)
  | succ m ih =>
    rw [lastOnPage?]
    by_cases hset : cells.getD m false = true
    · rw [if_pos hset]
      refine ⟨by omega, hset, fun j hj hn => ?_⟩
      exact (hclear j (by omega)).resolve_right (by omega)
    · rw [if_neg hset]
      refine ih (by omega) fun j hj => ?_
      by_cases hjm : j = m
      · left
        rw [hjm]
        simpa using hset
      · exact hclear j (by omega)

theorem isLast_lastOn? (t : Marks) (k n : Nat) (h : n ≤ Tape.pageSize) :
    IsLast (fun j => t.get (k * Tape.pageSize + j)) n (t.lastOn? k n) := by
  refine (isLast_lastOnPage? (t.page k) n).congr fun j hj => ?_
  exact (t.get_page_add k j (by omega)).symm

theorem isLast_lastFrom? (t : Marks) (k n : Nat) (h : n ≤ Tape.pageSize) :
    IsLast t.get (k * Tape.pageSize + n) (t.lastFrom? k n) := by
  induction k generalizing n with
  | zero =>
    have hp := t.isLast_lastOn? 0 n h
    simp only [Nat.zero_mul, Nat.zero_add] at hp ⊢
    exact hp
  | succ k ih =>
    have hp := t.isLast_lastOn? (k + 1) n h
    have hq := ih Tape.pageSize (Nat.le_refl _)
    rw [← Nat.succ_mul] at hq
    rw [lastFrom?]
    split
    · rename_i i hi
      rw [hi] at hp
      exact hp.append_some
    · rename_i hi
      rw [hi] at hp
      exact hp.append_none hq

theorem isLast_last? (t : Marks) (n : Nat) : IsLast t.get n (t.last? n) := by
  have h := t.isLast_lastFrom? (n / Tape.pageSize) (n % Tape.pageSize)
    (Nat.le_of_lt (Nat.mod_lt n (by decide)))
  rwa [Nat.div_add_mod'] at h

/-- The last mark is set and all cells after it are clear. -/
theorem last?_eq_some_iff (t : Marks) (n i : Nat) :
    t.last? n = some i ↔
      i < n ∧ t.get i = true ∧ ∀ j, i < j → j < n → t.get j = false :=
  (t.isLast_last? n).eq_some_iff i

/-- There is no last mark just if all cells are clear. -/
theorem last?_eq_none_iff (t : Marks) (n : Nat) :
    t.last? n = none ↔ ∀ j < n, t.get j = false :=
  (t.isLast_last? n).eq_none_iff

end Marks

end ObjectPile
