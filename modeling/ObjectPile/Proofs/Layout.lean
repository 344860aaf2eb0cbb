/-
# Layouts

A layout is the row of chunks that a segment is carved into, written down apart from the bytes of
the segment: where each chunk starts, how large it is and what it holds.

* `Tiles a cs b` : the chunks follow each other without gap or overlap from `a` to `b`.
* `Tiling.apart` : two chunks of a tiling have no byte in common.
* `Tiles.sum_size` : the sizes of the chunks add up to the stretch they cover.
-/
import ObjectPile.Proofs.Settings

namespace ObjectPile

/-! ## Chunks -/

/-- What a chunk holds. -/
inductive Content where
  | live (generation : Nat) (version : CodecVersion) (payload : List UInt8)
  | free
  /-- The chunk is in the hand of an operation, and its header says nothing yet. -/
  | taken
  deriving DecidableEq, Repr

/-- A stretch of a segment. -/
structure Chunk where
  start : Nat
  /-- Its size, header included. -/
  size : Nat
  content : Content
  deriving DecidableEq, Repr

namespace Chunk

/-- The first byte after a chunk. -/
def stop (c : Chunk) : Nat := c.start + c.size

/-- Whether a payload is stored in a chunk. -/
def isLive (c : Chunk) : Bool :=
  match c.content with
  | .live .. => true
  | _ => false

/-- The length of the payload of a chunk. -/
def payloadLength (c : Chunk) : Nat :=
  match c.content with
  | .live _ _ payload => payload.length
  | _ => 0

theorem isLive_eq_true_iff (c : Chunk) :
    c.isLive = true ↔ ∃ g v payload, c.content = .live g v payload := by
  unfold isLive
  cases c.content <;> simp

theorem isLive_eq_false_of_free {c : Chunk} (h : c.content = .free) : c.isLive = false := by
  simp [isLive, h]

theorem isLive_eq_false_of_taken {c : Chunk} (h : c.content = .taken) : c.isLive = false := by
  simp [isLive, h]

theorem ne_of_free_of_taken {c d : Chunk} (hc : c.content = .free) (hd : d.content = .taken) :
    c ≠ d := by
  rintro rfl
  exact Content.noConfusion (hc.symm.trans hd)

end Chunk

/-! ## Rows of chunks -/

/-- The chunks follow each other, the first of them at `a` and the last up to `b`. -/
def Tiles : Nat → List Chunk → Nat → Prop
  | a, [], b => a = b
  | a, c :: cs, b => c.start = a ∧ Tiles c.stop cs b

theorem tiles_append (a b : Nat) (cs ds : List Chunk) :
    Tiles a (cs ++ ds) b ↔ ∃ m, Tiles a cs m ∧ Tiles m ds b := by
  induction cs generalizing a with
  | nil => simp [Tiles]
  | cons c cs ih =>
    rw [List.cons_append, Tiles, ih]
    constructor
    · rintro ⟨ha, m, hcs, hds⟩
      exact ⟨m, ⟨ha, hcs⟩, hds⟩
    · rintro ⟨m, ⟨ha, hcs⟩, hds⟩
      exact ⟨ha, m, hcs, hds⟩

/-- Chunks in the middle of a row give way to others that cover the same stretch. -/
theorem Tiles.replace {a b : Nat} {pre ds post : List Chunk} (ds' : List Chunk)
    (h : Tiles a (pre ++ (ds ++ post)) b) (hd : ∀ m n, Tiles m ds n → Tiles m ds' n) :
    Tiles a (pre ++ (ds' ++ post)) b := by
  obtain ⟨m, hpre, h⟩ := (tiles_append _ _ _ _).1 h
  obtain ⟨n, hds, hpost⟩ := (tiles_append _ _ _ _).1 h
  exact (tiles_append _ _ _ _).2 ⟨m, hpre, (tiles_append _ _ _ _).2 ⟨n, hd m n hds, hpost⟩⟩

/-- What holds of all chunks holds after some of them give way to others of which it holds. -/
theorem forall_mem_replace {P : Chunk → Prop} {pre post : List Chunk} (ds ds' : List Chunk)
    (h : ∀ c ∈ pre ++ (ds ++ post), P c) (hds : ∀ c ∈ ds', P c) :
    ∀ c ∈ pre ++ (ds' ++ post), P c := by
  intro c hc
  rcases List.mem_append.1 hc with hc | hc
  · exact h c (List.mem_append_left _ hc)
  · rcases List.mem_append.1 hc with hc | hc
    · exact hds c hc
    · exact h c (List.mem_append_right _ (List.mem_append_right _ hc))

/-- The sizes of the chunks add up to the stretch that they cover. -/
theorem Tiles.sum_size {a b : Nat} {cs : List Chunk} (h : Tiles a cs b) :
    a + (cs.map Chunk.size).sum = b := by
  induction cs generalizing a with
  | nil => simpa [Tiles] using h
  | cons c cs ih =>
    obtain ⟨ha, hcs⟩ := h
    have := ih hcs
    unfold Chunk.stop at this
    rw [List.map_cons, List.sum_cons]
    omega

theorem Tiles.bounds {a b : Nat} {cs : List Chunk} (h : Tiles a cs b) :
    a ≤ b ∧ ∀ c ∈ cs, a ≤ c.start ∧ c.stop ≤ b := by
  induction cs generalizing a with
  | nil =>
    have hab : a = b := h
    exact ⟨Nat.le_of_eq hab, by simp⟩
  | cons c cs ih =>
    obtain ⟨ha, hcs⟩ := h
    obtain ⟨hle, hrest⟩ := ih hcs
    have hstop : c.start ≤ c.stop := Nat.le_add_right _ _
    refine ⟨by omega, ?_⟩
    intro d hd
    rcases List.mem_cons.1 hd with rfl | hd
    · exact ⟨Nat.le_of_eq ha.symm, hle⟩
    · have := hrest d hd
      exact ⟨by omega, this.2⟩

/-- Each chunk of a row ends before the later ones begin. -/
theorem Tiles.pairwise {a b : Nat} {cs : List Chunk} (h : Tiles a cs b) :
    cs.Pairwise fun c d => c.stop ≤ d.start := by
  induction cs generalizing a with
  | nil => exact List.Pairwise.nil
  | cons c cs ih => exact List.pairwise_cons.2 ⟨fun d hd => (h.2.bounds.2 d hd).1, ih h.2⟩

/-- A row from `0` to `bump` of aligned chunks, none of them smaller than the smallest. -/
structure Tiling (smallest : Nat) (cs : List Chunk) (bump : Nat) : Prop where
  tiles : Tiles 0 cs bump
  aligned : ∀ c ∈ cs, c.size % 16 = 0
  smallest_le : ∀ c ∈ cs, smallest ≤ c.size

namespace Tiling

variable {smallest bump : Nat} {cs : List Chunk}

theorem mod_of_tiles {a b : Nat} (ha : a % 16 = 0) (h : Tiles a cs b)
    (hal : ∀ c ∈ cs, c.size % 16 = 0) : b % 16 = 0 ∧ ∀ c ∈ cs, c.start % 16 = 0 := by
  induction cs generalizing a with
  | nil =>
    have hab : a = b := h
    exact ⟨hab ▸ ha, by simp⟩
  | cons c cs ih =>
    obtain ⟨hc, hcs⟩ := h
    have hsize := hal c List.mem_cons_self
    -- the rest of the row starts where `c` stops, so the hypothesis is about an aligned start
    have hstop : c.stop % 16 = 0 := by
      unfold Chunk.stop
      omega
    obtain ⟨hb, hrest⟩ := ih hstop hcs fun e he => hal e (List.mem_cons_of_mem _ he)
    refine ⟨hb, ?_⟩
    intro d hd
    rcases List.mem_cons.1 hd with rfl | hd
    · omega
    · exact hrest d hd

/-- Chunks start at multiples of 16. -/
theorem start_mod (h : Tiling smallest cs bump) : ∀ c ∈ cs, c.start % 16 = 0 :=
  (mod_of_tiles rfl h.tiles h.aligned).2

/-- The row ends at a multiple of 16. -/
theorem bump_mod (h : Tiling smallest cs bump) : bump % 16 = 0 :=
  (mod_of_tiles rfl h.tiles h.aligned).1

/-- Two chunks of a row that do not start together have no byte in common. -/
theorem apart (h : Tiling smallest cs bump) {c d : Chunk} (hc : c ∈ cs) (hd : d ∈ cs)
    (hne : c.start ≠ d.start) : c.stop ≤ d.start ∨ d.stop ≤ c.start := by
  have hp := h.tiles.pairwise
  obtain ⟨i, hi, rfl⟩ := List.mem_iff_getElem.1 hc
  obtain ⟨j, hj, rfl⟩ := List.mem_iff_getElem.1 hd
  rw [List.pairwise_iff_getElem] at hp
  rcases Nat.lt_trichotomy i j with hij | rfl | hij
  · exact .inl (hp i j hi hj hij)
  · exact absurd rfl hne
  · exact .inr (hp j i hj hi hij)

/-- The starts of the chunks ascend. -/
theorem pairwise_start (h : Tiling smallest cs bump) (hpos : 0 < smallest) :
    (cs.map Chunk.start).Pairwise (· < ·) := by
  rw [List.pairwise_map]
  refine List.Pairwise.imp_of_mem ?_ h.tiles.pairwise
  intro c d hc _ hcd
  have := h.smallest_le c hc
  unfold Chunk.stop at hcd
  omega

theorem nodup_start (h : Tiling smallest cs bump) (hpos : 0 < smallest) :
    (cs.map Chunk.start).Nodup :=
  (h.pairwise_start hpos).imp fun hlt => Nat.ne_of_lt hlt

/-- A chunk of a row is determined by its start. -/
theorem eq_of_start_eq (h : Tiling smallest cs bump) (hpos : 0 < smallest) {c d : Chunk}
    (hc : c ∈ cs) (hd : d ∈ cs) (heq : c.start = d.start) : c = d :=
  List.inj_on_of_nodup_map (h.nodup_start hpos) hc hd heq

/-- A chunk lies before the end of the row. -/
theorem stop_le (h : Tiling smallest cs bump) {c : Chunk} (hc : c ∈ cs) : c.stop ≤ bump :=
  (h.tiles.bounds.2 c hc).2

/-- No other chunk of a row starts where a given one does. -/
theorem start_not_mem {pre post : List Chunk} {d : Chunk}
    (h : Tiling smallest (pre ++ d :: post) bump) (hpos : 0 < smallest) :
    d.start ∉ (pre ++ post).map Chunk.start := by
  have hnd := h.nodup_start hpos
  rw [List.map_append, List.map_cons, List.nodup_middle, List.nodup_cons, ← List.map_append] at hnd
  exact hnd.1

theorem start_ne {pre post : List Chunk} {c d : Chunk}
    (h : Tiling smallest (pre ++ d :: post) bump) (hpos : 0 < smallest) (hc : c ∈ pre ++ post) :
    c.start ≠ d.start := fun heq =>
  h.start_not_mem hpos (heq ▸ List.mem_map_of_mem hc)

/-- Chunks in the middle of a tiling give way to others that cover the same stretch. -/
theorem replace {pre post : List Chunk} (ds ds' : List Chunk)
    (h : Tiling smallest (pre ++ (ds ++ post)) bump)
    (htiles : ∀ m n, Tiles m ds n → Tiles m ds' n) (hal : ∀ c ∈ ds', c.size % 16 = 0)
    (hle : ∀ c ∈ ds', smallest ≤ c.size) : Tiling smallest (pre ++ (ds' ++ post)) bump := by
  have haligned := forall_mem_replace ds ds' h.aligned hal
  have hsmallest := forall_mem_replace ds ds' h.smallest_le hle
  exact ⟨h.tiles.replace ds' htiles, haligned, hsmallest⟩

end Tiling

end ObjectPile
