/-
# Settled rows

Where space is reused, free chunks that lie side by side become one, and free bytes at the end of the
row go back behind the cursor. This module is about rows of chunks alone: which of them are settled in
this way, and how every row is settled.

* `Spaced b cs` : no free chunk is followed by free bytes, where `b` says what follows the row.
* `settle` : free neighbours are joined and free chunks at the end dropped.
* `settle_eq_self`, `spaced_settle` : the settled rows are those that settling leaves.
* `settle_freeAt_settle` : it makes no difference whether a row was settled before a chunk of it
  becomes free.
-/
import ObjectPile.Proofs.Layout

namespace ObjectPile

namespace Chunk

/-- Whether a chunk is free. -/
def isFree (c : Chunk) : Bool := decide (c.content = .free)

theorem isFree_eq_true_iff (c : Chunk) : c.isFree = true ↔ c.content = .free := by
  simp [isFree]

theorem isFree_eq_false_iff {c : Chunk} : c.isFree = false ↔ c.content ≠ .free := by
  simp [isFree]

/-- The chunk once what it held is given up. -/
def freed (c : Chunk) : Chunk := { c with content := .free }

theorem freed_of_isFree {c : Chunk} (h : c.isFree = true) : c.freed = c := by
  obtain ⟨start, size, content⟩ := c
  obtain rfl : content = .free := (isFree_eq_true_iff _).1 h
  rfl

end Chunk

/-! ## Free chunks apart -/

/-- Whether free bytes come next: those of the first chunk, or those after the row. -/
def freeAhead (b : Bool) (cs : List Chunk) : Bool := (cs.head?.map Chunk.isFree).getD b

@[simp] theorem freeAhead_nil (b : Bool) : freeAhead b [] = b := rfl

@[simp] theorem freeAhead_cons (b : Bool) (c : Chunk) (cs : List Chunk) :
    freeAhead b (c :: cs) = c.isFree := rfl

/-- No free chunk is followed by free bytes. What follows the row is free if `b` says so. -/
def Spaced (b : Bool) : List Chunk → Prop
  | [] => True
  | c :: cs => (c.isFree = true → freeAhead b cs = false) ∧ Spaced b cs

theorem freeAhead_append (b : Bool) (cs ds : List Chunk) :
    freeAhead b (cs ++ ds) = freeAhead (freeAhead b ds) cs := by
  cases cs <;> rfl

theorem spaced_append (b : Bool) (cs ds : List Chunk) :
    Spaced b (cs ++ ds) ↔ Spaced (freeAhead b ds) cs ∧ Spaced b ds := by
  induction cs with
  | nil => simp [Spaced]
  | cons c cs ih => rw [List.cons_append, Spaced, Spaced, ih, freeAhead_append, and_assoc]

/-- A row that does not end with a free chunk is spaced whatever follows it. -/
theorem Spaced.of_getLast? {b b' : Bool} {cs : List Chunk} (h : Spaced b cs)
    (hlast : ∀ c ∈ cs.getLast?, c.isFree = false) : Spaced b' cs := by
  induction cs with
  | nil => trivial
  | cons c cs ih =>
    cases cs with
    | nil =>
      have hc := hlast c rfl
      exact ⟨fun hfree => by simp [hc] at hfree, trivial⟩
    | cons d cs => exact ⟨h.1, ih h.2 (by simpa [List.getLast?_cons_cons] using hlast)⟩

/-- Of two chunks of a spaced row that lie side by side at most one is free. -/
theorem Spaced.isFree_eq_false {b : Bool} {pre post : List Chunk} {c d : Chunk}
    (h : Spaced b (pre ++ c :: d :: post)) (hc : c.isFree = true) : d.isFree = false :=
  ((spaced_append b pre _).1 h).2.1 hc

/-- A row that is spaced in front of some bytes is so in front of bytes that are not free. -/
theorem Spaced.mono {b b' : Bool} {cs : List Chunk} (h : Spaced b cs) (hle : b' ≤ b) :
    Spaced b' cs := by
  induction cs with
  | nil => trivial
  | cons c cs ih =>
    refine ⟨?_, ih h.2⟩
    intro hc
    have hahead := h.1 hc
    cases cs with
    | nil =>
      rw [freeAhead_nil] at hahead ⊢
      rw [hahead] at hle
      exact Bool.eq_false_of_le_false hle
    | cons d cs => exact hahead

/-- A chunk that is not free keeps what comes before it apart from what comes after. -/
theorem Spaced.replace {b : Bool} {pre post post' : List Chunk} {c d : Chunk}
    (h : Spaced b (pre ++ c :: post)) (hd : d.isFree = false) (hpost : Spaced b post') :
    Spaced b (pre ++ d :: post') := by
  refine (spaced_append b pre _).2 ⟨?_, fun hfree => by simp [hd] at hfree, hpost⟩
  rw [freeAhead_cons, hd]
  exact ((spaced_append b pre _).1 h).1.mono (Bool.false_le _)

/-- In a spaced row that ends with no free chunk, the free chunks are not more than the others. -/
theorem Spaced.countP_isFree_le {cs : List Chunk} (h : Spaced true cs) :
    cs.countP Chunk.isFree ≤ cs.countP fun c => !c.isFree := by
  -- one less if the row does not begin with a free one: that is what carries the induction
  have hstrict : cs.countP Chunk.isFree + (!freeAhead true cs).toNat ≤
      cs.countP fun c => !c.isFree := by
    induction cs with
    | nil => simp
    | cons c cs ih =>
      have hrest := ih h.2
      rw [List.countP_cons, List.countP_cons, freeAhead_cons]
      cases hc : c.isFree with
      | true =>
        rw [h.1 hc] at hrest
        simpa using hrest
      | false =>
        simp only [Bool.false_eq_true, if_false, Bool.not_false, if_true, Bool.toNat_true]
        omega
  exact Nat.le_of_add_right_le hstrict

/-! ## Settling -/

/-- Puts a chunk in front of a settled row: a free one is joined with a free one that follows, and
vanishes if nothing follows. -/
def absorb (c : Chunk) (cs : List Chunk) : List Chunk :=
  if c.isFree then
    match cs with
    | [] => []
    | d :: ds => if d.isFree then ⟨c.start, c.size + d.size, .free⟩ :: ds else c :: d :: ds
  else c :: cs

/-- Joins free neighbours and drops free chunks at the end of a row. -/
def settle (cs : List Chunk) : List Chunk := cs.foldr absorb []

@[simp] theorem settle_nil : settle [] = [] := rfl

@[simp] theorem settle_cons (c : Chunk) (cs : List Chunk) :
    settle (c :: cs) = absorb c (settle cs) := rfl

theorem absorb_of_not_free {c : Chunk} (hc : c.isFree = false) (cs : List Chunk) :
    absorb c cs = c :: cs := by
  unfold absorb
  rw [hc, if_neg Bool.false_ne_true]

theorem absorb_nil {c : Chunk} (hc : c.isFree = true) : absorb c [] = [] := by
  unfold absorb
  rw [if_pos hc]

theorem absorb_cons_of_free {c d : Chunk} (hc : c.isFree = true) (hd : d.isFree = true)
    (cs : List Chunk) : absorb c (d :: cs) = ⟨c.start, c.size + d.size, .free⟩ :: cs := by
  unfold absorb
  rw [if_pos hc]
  exact if_pos hd

/-- A free chunk stays by itself in front of one that is not free. -/
theorem absorb_of_freeAhead {c : Chunk} {cs : List Chunk} (h : freeAhead true cs = false) :
    absorb c cs = c :: cs := by
  cases cs with
  | nil => simp at h
  | cons d ds =>
    unfold absorb
    split
    · rw [freeAhead_cons] at h
      simp [h]
    · rfl

/-- Two free chunks are joined with a row one after the other or both at once. -/
theorem absorb_absorb {c d : Chunk} (hc : c.isFree = true) (hd : d.isFree = true)
    (cs : List Chunk) :
    absorb c (absorb d cs) = absorb ⟨c.start, c.size + d.size, .free⟩ cs := by
  cases cs with
  | nil => rw [absorb_nil hd, absorb_nil hc, absorb_nil rfl]
  | cons e cs =>
    cases he : e.isFree with
    | true =>
      rw [absorb_cons_of_free hd he, absorb_cons_of_free hc rfl, absorb_cons_of_free rfl he,
        Nat.add_assoc]
    | false =>
      have hstays : ∀ b : Chunk, absorb b (e :: cs) = b :: e :: cs := fun b =>
        absorb_of_freeAhead he
      rw [hstays, absorb_cons_of_free hc hd, hstays]

theorem Spaced.absorb {cs : List Chunk} (h : Spaced true cs) (c : Chunk) :
    Spaced true (absorb c cs) := by
  unfold ObjectPile.absorb
  split
  · rename_i hc
    split
    · trivial
    · rename_i d ds
      split
      · rename_i hd
        exact ⟨fun _ => h.1 hd, h.2⟩
      · rename_i hd
        exact ⟨fun _ => by simpa using hd, h⟩
  · rename_i hc
    exact ⟨fun hfree => absurd hfree hc, h⟩

/-- **Every row is settled by settling.** -/
theorem spaced_settle (cs : List Chunk) : Spaced true (settle cs) := by
  induction cs with
  | nil => trivial
  | cons c cs ih => exact ih.absorb c

theorem settle_append_congr (cs : List Chunk) {ds ds' : List Chunk} (h : settle ds = settle ds') :
    settle (cs ++ ds) = settle (cs ++ ds') := by
  unfold settle at *
  rw [List.foldr_append, List.foldr_append, h]

/-- Settling leaves the spaced part in front of a row. -/
theorem settle_append {cs ds : List Chunk} (h : Spaced (freeAhead true (settle ds)) cs) :
    settle (cs ++ ds) = cs ++ settle ds := by
  induction cs with
  | nil => rfl
  | cons c cs ih =>
    rw [List.cons_append, settle_cons, ih h.2, List.cons_append]
    cases hc : c.isFree with
    | false => exact absorb_of_not_free hc _
    | true =>
      apply absorb_of_freeAhead
      rw [freeAhead_append]
      exact h.1 hc

/-- **Settling leaves the rows that are settled.** -/
theorem settle_eq_self {cs : List Chunk} (h : Spaced true cs) : settle cs = cs := by
  have happend : settle (cs ++ []) = cs ++ settle [] := settle_append h
  rwa [List.append_nil, settle_nil, List.append_nil] at happend

/-! ## Chunks become free -/

/-- The row once the chunk at an offset has become free. -/
def freeAt (offset : Nat) (cs : List Chunk) : List Chunk :=
  cs.map fun c => if c.start = offset then c.freed else c

@[simp] theorem freeAt_nil (offset : Nat) : freeAt offset [] = [] := rfl

@[simp] theorem freeAt_cons (offset : Nat) (c : Chunk) (cs : List Chunk) :
    freeAt offset (c :: cs) = (if c.start = offset then c.freed else c) :: freeAt offset cs := rfl

/-- In a row of which one chunk starts at an offset, that chunk becomes free. -/
theorem freeAt_append {pre post : List Chunk} {d : Chunk}
    (hne : ∀ c ∈ pre ++ post, c.start ≠ d.start) :
    freeAt d.start (pre ++ d :: post) = pre ++ d.freed :: post := by
  have hsame : ∀ cs : List Chunk, (∀ c ∈ cs, c.start ≠ d.start) → freeAt d.start cs = cs := by
    intro cs hcs
    refine (List.map_congr_left ?_).trans (List.map_id cs)
    intro c hc
    exact if_neg (hcs c hc)
  have hpre := hsame pre fun c hc => hne c (List.mem_append_left _ hc)
  have hpost := hsame post fun c hc => hne c (List.mem_append_right _ hc)
  unfold freeAt at *
  rw [List.map_append, List.map_cons, hpre, hpost, if_pos rfl]

/-- A free chunk stays as it is. -/
theorem freeAt_cons_of_free {c : Chunk} (hc : c.isFree = true) (offset : Nat) (cs : List Chunk) :
    freeAt offset (c :: cs) = c :: freeAt offset cs := by
  rw [freeAt_cons, Chunk.freed_of_isFree hc, ite_self]

/-- Chunks become free in any order. -/
theorem freeAt_comm (o o' : Nat) (cs : List Chunk) :
    freeAt o (freeAt o' cs) = freeAt o' (freeAt o cs) := by
  unfold freeAt
  rw [List.map_map, List.map_map]
  refine List.map_congr_left ?_
  intro c _
  simp only [Function.comp_apply]
  by_cases h : c.start = o
  · by_cases h' : c.start = o'
    · obtain rfl : o = o' := h.symm.trans h'
      rfl
    · rw [if_neg h', if_pos h]
      exact (if_neg h').symm
  · rw [if_neg h]
    by_cases h' : c.start = o'
    · rw [if_pos h']
      exact if_neg h
    · rw [if_neg h']
      exact if_neg h

/-- **It makes no difference whether a row was settled before a chunk of it becomes free.** -/
theorem settle_freeAt_settle (offset : Nat) (cs : List Chunk) :
    settle (freeAt offset (settle cs)) = settle (freeAt offset cs) := by
  induction cs with
  | nil => rfl
  | cons c cs ih =>
    cases hc : c.isFree with
    | false =>
      rw [settle_cons, absorb_of_not_free hc, freeAt_cons, settle_cons, ih, ← settle_cons,
        ← freeAt_cons]
    | true =>
      rw [freeAt_cons_of_free hc, settle_cons, settle_cons, ← ih]
      -- the free chunk vanishes, is joined with the next one, or stays by itself
      cases hcs : settle cs with
      | nil => rw [absorb_nil hc, freeAt_nil, settle_nil, absorb_nil hc]
      | cons d ds =>
        cases hd : d.isFree with
        | true =>
          rw [absorb_cons_of_free hc hd, freeAt_cons_of_free rfl, freeAt_cons_of_free hd, settle_cons,
            settle_cons, absorb_absorb hc hd]
        | false =>
          have hstays : absorb c (d :: ds) = c :: d :: ds := absorb_of_freeAhead hd
          rw [hstays, freeAt_cons_of_free hc, settle_cons]

end ObjectPile
