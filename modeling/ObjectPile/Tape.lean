/-
# Tapes

A tape is an endless row of cells that hold a blank until they are written. It is kept in pages of
which only the written front parts exist, so that writing far out costs little more than writing at
the start.

* `Tape.get_set` is the one law of the two operations.
* `Tape.get_write` says what writing a whole list of cells does.
-/
namespace ObjectPile

/-- A row of cells, all of them `blank` beyond the ones that have been written. -/
structure Tape (α : Type) (blank : α) where
  /-- The pages up to the furthest one written on, each up to the furthest cell written on it. -/
  pages : Array (Array α)

namespace Tape

/-- The number of cells on a page. -/
def pageSize : Nat := 4096

variable {α : Type} {blank : α}

/-- The tape on which nothing is written. -/
def empty : Tape α blank := ⟨#[]⟩

instance : Inhabited (Tape α blank) := ⟨empty⟩

/-! ## One page -/

/-- The written front part of a page. -/
def page (t : Tape α blank) (k : Nat) : Array α := t.pages.getD k #[]

/-- A page on which one more cell is written, after blanks where it was untouched. -/
def setOnPage (blank : α) (cells : Array α) (i : Nat) (a : α) : Array α :=
  if i < cells.size then cells.setIfInBounds i a
  else (cells ++ Array.replicate (i - cells.size) blank).push a

theorem getD_setOnPage (blank : α) (cells : Array α) (i j : Nat) (a : α) :
    (setOnPage blank cells i a).getD j blank = if j = i then a else cells.getD j blank := by
  unfold setOnPage
  split
  · rename_i hi
    simp only [Array.getD_eq_getD_getElem?, Array.getElem?_setIfInBounds]
    by_cases hj : j = i
    · subst hj
      simp [hi]
    · rw [if_neg hj, if_neg (Ne.symm hj)]
  · rename_i hi
    simp only [Array.getD_eq_getD_getElem?, Array.getElem?_push, Array.getElem?_append,
      Array.size_append, Array.size_replicate, Array.getElem?_replicate]
    by_cases hj : j = i
    · rw [if_pos (by omega), if_pos hj, Option.getD_some]
    · rw [if_neg (by omega), if_neg hj]
      by_cases hs : j < cells.size
      · rw [if_pos hs]
      · rw [if_neg hs, Array.getElem?_eq_none (by omega)]
        split <;> rfl

/-! ## Cells -/

/-- The content of a cell. -/
def get (t : Tape α blank) (i : Nat) : α := (t.page (i / pageSize)).getD (i % pageSize) blank

/-- The tape with a page for each number up to `k`. -/
def extend (t : Tape α blank) (k : Nat) : Tape α blank :=
  if k < t.pages.size then t else ⟨t.pages ++ Array.replicate (k + 1 - t.pages.size) #[]⟩

/-- Writes one cell. -/
def set (t : Tape α blank) (i : Nat) (a : α) : Tape α blank :=
  ⟨(t.extend (i / pageSize)).pages.modify (i / pageSize) fun cells =>
    setOnPage blank cells (i % pageSize) a⟩

/-- Writes consecutive cells, the first of them at `i`. -/
def write (t : Tape α blank) (i : Nat) : List α → Tape α blank
  | [] => t
  | a :: as => (t.set i a).write (i + 1) as

/-- The contents of `n` consecutive cells, the first of them at `i`. -/
def read (t : Tape α blank) (i n : Nat) : List α := List.ofFn fun k : Fin n => t.get (i + k)

/-! ## What writing does to reading -/

@[simp] theorem get_empty (i : Nat) : (empty : Tape α blank).get i = blank := by
  simp [empty, get, page]

/-- A cell by its page and its place there. -/
theorem get_page_add (t : Tape α blank) (k i : Nat) (h : i < pageSize) :
    t.get (k * pageSize + i) = (t.page k).getD i blank := by
  rw [get, show (k * pageSize + i) / pageSize = k by unfold pageSize at h ⊢; omega,
    show (k * pageSize + i) % pageSize = i by unfold pageSize at h ⊢; omega]

theorem lt_size_extend (t : Tape α blank) (k : Nat) : k < (t.extend k).pages.size := by
  unfold extend
  split
  · assumption
  · simp only [Array.size_append, Array.size_replicate]
    omega

@[simp] theorem page_extend (t : Tape α blank) (k l : Nat) : (t.extend k).page l = t.page l := by
  unfold extend
  split
  · rfl
  · simp only [page, Array.getD_eq_getD_getElem?, Array.getElem?_append, Array.getElem?_replicate]
    split
    · rfl
    · rw [Array.getElem?_eq_none (by omega)]
      split <;> rfl

/-- Writing a cell changes the page it is on and no other. -/
theorem page_set (t : Tape α blank) (i k : Nat) (a : α) :
    (t.set i a).page k =
      if k = i / pageSize then setOnPage blank (t.page k) (i % pageSize) a else t.page k := by
  have hp := page_extend t (i / pageSize) k
  have hs := lt_size_extend t (i / pageSize)
  rw [page, Array.getD_eq_getD_getElem?] at hp
  rw [page, set, Array.getD_eq_getD_getElem?, Array.getElem?_modify]
  by_cases h : k = i / pageSize
  · rw [if_pos h.symm, if_pos h, ← hp, Array.getElem?_eq_getElem (h ▸ hs), Option.map_some,
      Option.getD_some, Option.getD_some]
  · rw [if_neg (Ne.symm h), if_neg h, hp]

theorem get_set (t : Tape α blank) (i j : Nat) (a : α) :
    (t.set i a).get j = if j = i then a else t.get j := by
  rw [get, page_set]
  by_cases h : j / pageSize = i / pageSize
  · rw [if_pos h, getD_setOnPage, ← get]
    by_cases hj : j = i
    · rw [if_pos hj, if_pos (by rw [hj])]
    · have hm : j % pageSize ≠ i % pageSize := by
        unfold pageSize at h ⊢
        omega
      rw [if_neg hj, if_neg hm]
  · rw [if_neg h, ← get, if_neg (fun hj => h (by rw [hj]))]

@[simp] theorem get_set_self (t : Tape α blank) (i : Nat) (a : α) : (t.set i a).get i = a := by
  rw [get_set, if_pos rfl]

theorem get_set_of_ne (t : Tape α blank) {i j : Nat} (a : α) (h : j ≠ i) :
    (t.set i a).get j = t.get j := by
  rw [get_set, if_neg h]

theorem get_write_of_lt (t : Tape α blank) (as : List α) {i j : Nat} (h : j < i) :
    (t.write i as).get j = t.get j := by
  induction as generalizing t i with
  | nil => rfl
  | cons a as ih => rw [write, ih _ (by omega), get_set_of_ne _ _ (by omega)]

/-- Writing a list changes the cells it covers and no other. -/
theorem get_write (t : Tape α blank) (as : List α) (i j : Nat) :
    (t.write i as).get j = if i ≤ j then as.getD (j - i) (t.get j) else t.get j := by
  induction as generalizing t i with
  | nil => simp [write]
  | cons a as ih =>
    rw [write, ih]
    by_cases h : j = i
    · subst h
      rw [if_neg (by omega), if_pos (Nat.le_refl j), Nat.sub_self, List.getD_cons_zero,
        get_set_self]
    · rw [get_set_of_ne _ _ h]
      by_cases hlt : i ≤ j
      · rw [if_pos (by omega), if_pos hlt, show j - i = (j - (i + 1)) + 1 from by omega,
          List.getD_cons_succ]
      · rw [if_neg (by omega), if_neg hlt]

theorem get_write_of_ge (t : Tape α blank) (as : List α) {i j : Nat} (h : i + as.length ≤ j) :
    (t.write i as).get j = t.get j := by
  rw [get_write, if_pos (by omega), List.getD_eq_getElem?_getD,
    List.getElem?_eq_none (by omega), Option.getD_none]

@[simp] theorem length_read (t : Tape α blank) (i n : Nat) : (t.read i n).length = n := by
  simp [read]

/-- Two tapes that agree on a range read the same there. -/
theorem read_congr {t u : Tape α blank} {i n : Nat}
    (h : ∀ k, k < n → t.get (i + k) = u.get (i + k)) : t.read i n = u.read i n := by
  unfold read
  congr 1
  funext k
  exact h k k.isLt

/-- What is written can be read. -/
theorem read_write_self (t : Tape α blank) (as : List α) (i : Nat) :
    (t.write i as).read i as.length = as := by
  apply List.ext_getElem
  · simp
  · intro k hk _
    have hk' : k < as.length := by simpa using hk
    simp [read, get_write]

/-- Writing elsewhere leaves a range as it is. -/
theorem read_write_of_disjoint (t : Tape α blank) (as : List α) {i j n : Nat}
    (h : j + n ≤ i ∨ i + as.length ≤ j) : (t.write i as).read j n = t.read j n := by
  apply read_congr
  intro k hk
  rcases h with h | h
  · exact get_write_of_lt _ _ (by omega)
  · exact get_write_of_ge _ _ (by omega)

end Tape

end ObjectPile
