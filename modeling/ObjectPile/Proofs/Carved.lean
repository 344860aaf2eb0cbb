/-
# Carved segments

How the bytes, the marks and the cursor of a segment show a layout, and what the small steps of
storing and releasing do to it: a chunk changes hands, two chunks in hand are joined, one is cut in
two, the cursor moves over a chunk and back.

* `Segment.Carved` : the segment shows the layout.
* `Carved.setContent`, `Carved.merge`, `Carved.split`, `Carved.extend`, `Carved.retract` : the steps.
-/
import ObjectPile.Proofs.Layout
import ObjectPile.Segment.Header
import ObjectPile.Segment.Release
import ObjectPile.Segment.Store

namespace ObjectPile

/-! ## Bytes that stay -/

namespace Memory

/-- A word depends on its own bytes alone. -/
theorem word_congr {m m' : Memory} {width offset : Nat}
    (h : ∀ i, offset ≤ i → i < offset + width → m'.get i = m.get i) :
    m'.word width offset = m.word width offset := by
  unfold word
  rw [Tape.read_congr fun k hk => h (offset + k) (by omega) (by omega)]

/-- Writing a word changes no other byte. -/
theorem get_setWord_of_disjoint (m : Memory) {width offset i : Nat} (n : Nat)
    (h : i < offset ∨ offset + width ≤ i) : (m.setWord width offset n).get i = m.get i := by
  unfold setWord
  rcases h with h | h
  · exact Tape.get_write_of_lt _ _ h
  · exact Tape.get_write_of_ge _ _ (by rwa [Word.length_bytes])

end Memory

namespace Segment

/-! ## Fields that an update leaves -/

section Fields

variable (s : Segment) (offset field n size length generation list : Nat)
  (version : CodecVersion) (b : Bool) (l : FreeList)

@[simp] theorem size_setWord : (s.setWord offset field n).size = s.size := by
  simp only [setWord]

@[simp] theorem bump_setWord : (s.setWord offset field n).bump = s.bump := by
  simp only [setWord]

@[simp] theorem starts_setWord : (s.setWord offset field n).starts = s.starts := by
  simp only [setWord]

@[simp] theorem freeLists_setWord : (s.setWord offset field n).freeLists = s.freeLists := by
  simp only [setWord]

@[simp] theorem liveCount_setWord : (s.setWord offset field n).liveCount = s.liveCount := by
  simp only [setWord]

@[simp] theorem size_writeHeader :
    (s.writeHeader offset size version length generation).size = s.size := by
  simp only [writeHeader]

@[simp] theorem bump_writeHeader :
    (s.writeHeader offset size version length generation).bump = s.bump := by
  simp only [writeHeader]

@[simp] theorem starts_writeHeader :
    (s.writeHeader offset size version length generation).starts = s.starts := by
  simp only [writeHeader]

@[simp] theorem freeLists_writeHeader :
    (s.writeHeader offset size version length generation).freeLists = s.freeLists := by
  simp only [writeHeader]

@[simp] theorem liveCount_writeHeader :
    (s.writeHeader offset size version length generation).liveCount = s.liveCount := by
  simp only [writeHeader]

@[simp] theorem liveCount_mark : (s.mark offset b).liveCount = s.liveCount := rfl

@[simp] theorem memory_setFreeList : (s.setFreeList list l).memory = s.memory := rfl

end Fields

/-- Two segments have the same bytes from `a` up to `b`. -/
def SameOn (s s' : Segment) (a b : Nat) : Prop :=
  ∀ i, a ≤ i → i < b → s'.memory.get i = s.memory.get i

namespace SameOn

variable {s s' s'' : Segment} {a b : Nat}

theorem refl (s : Segment) (a b : Nat) : SameOn s s a b := fun _ _ _ => rfl

theorem trans (h : SameOn s s' a b) (h' : SameOn s' s'' a b) : SameOn s s'' a b :=
  fun i hi hi' => (h' i hi hi').trans (h i hi hi')

theorem word (h : SameOn s s' a b) {offset field : Nat} (ha : a ≤ offset + field)
    (hb : offset + field + 4 ≤ b) : s'.word offset field = s.word offset field :=
  Memory.word_congr fun i hi hi' => h i (by omega) (by omega)

theorem chunkSize (h : SameOn s s' a b) {offset : Nat} (ha : a ≤ offset)
    (hb : offset + headerSize ≤ b) : s'.chunkSize offset = s.chunkSize offset := by
  unfold headerSize at hb
  unfold Segment.chunkSize
  rw [h.word (by omega) (by unfold sizeField; omega)]

theorem chunkVersion (h : SameOn s s' a b) {offset : Nat} (ha : a ≤ offset)
    (hb : offset + headerSize ≤ b) : s'.chunkVersion offset = s.chunkVersion offset := by
  unfold headerSize at hb
  unfold Segment.chunkVersion
  rw [h.word (by omega) (by unfold sizeField; omega)]

theorem generation (h : SameOn s s' a b) {offset : Nat} (ha : a ≤ offset)
    (hb : offset + headerSize ≤ b) : s'.generation offset = s.generation offset := by
  unfold headerSize at hb
  exact Memory.word_congr fun i hi hi' => by
    unfold generationField at hi hi'
    exact h i (by omega) (by omega)

theorem read (h : SameOn s s' a b) {offset n : Nat} (ha : a ≤ offset) (hb : offset + n ≤ b) :
    s'.memory.read offset n = s.memory.read offset n :=
  Tape.read_congr fun k hk => h (offset + k) (by omega) (by omega)

end SameOn

/-- Writing a word of a chunk leaves all other bytes. -/
theorem get_memory_setWord (s : Segment) {offset field i : Nat} (n : Nat)
    (h : i < offset + field ∨ offset + field + 4 ≤ i) :
    (s.setWord offset field n).memory.get i = s.memory.get i :=
  Memory.get_setWord_of_disjoint _ _ h

/-- Writing a header leaves all other bytes. -/
theorem get_memory_writeHeader (s : Segment) {offset i : Nat} (size : Nat) (version : CodecVersion)
    (length generation : Nat) (h : i < offset ∨ offset + headerSize ≤ i) :
    (s.writeHeader offset size version length generation).memory.get i = s.memory.get i := by
  unfold headerSize at h
  simp only [writeHeader]
  rw [Memory.get_setWord_of_disjoint _ _ (by unfold generationField; omega),
    Memory.get_setWord_of_disjoint _ _ (by unfold lengthField; omega),
    Memory.get_setWord_of_disjoint _ _ (by unfold sizeField; omega)]

/-- Writing a header and a payload that fit into a chunk leaves all bytes outside the chunk. -/
theorem get_memory_writeChunk (s : Segment) {offset size i : Nat} {payload : List UInt8}
    (version : CodecVersion) (length generation : Nat) (hroom : payload.length + headerSize ≤ size)
    (h : i < offset ∨ offset + size ≤ i) :
    ((s.writeHeader offset size version length generation).memory.write (offset + headerSize)
      payload).get i = s.memory.get i := by
  have hwrite : ((s.writeHeader offset size version length generation).memory.write
      (offset + headerSize) payload).get i =
        (s.writeHeader offset size version length generation).memory.get i := by
    rcases h with h | h
    · exact Tape.get_write_of_lt _ _ (by omega)
    · exact Tape.get_write_of_ge _ _ (by omega)
  rw [hwrite]
  exact get_memory_writeHeader _ _ _ _ _ (by omega)

/-- A word of a chunk reads back as it was written. -/
theorem word_setWord_self (s : Segment) (offset field : Nat) {n : Nat} (h : n < 4294967296) :
    (s.setWord offset field n).word offset field = n := by
  simp only [word, setWord]
  rw [Memory.word_setWord]
  omega

/-- Writing a word leaves every other word. -/
theorem word_setWord_of_disjoint (s : Segment) {offset field offset' field' : Nat} (n : Nat)
    (h : offset' + field' + 4 ≤ offset + field ∨ offset + field + 4 ≤ offset' + field') :
    (s.setWord offset field n).word offset' field' = s.word offset' field' :=
  Memory.word_setWord_of_disjoint _ _ h

/-! ## Layouts of segments -/

/-- The header and the bytes of a chunk say what it holds. -/
def Shows (s : Segment) (c : Chunk) : Prop :=
  match c.content with
  | .live generation version payload =>
    s.chunkSize c.start = c.size ∧ s.generation c.start = generation ∧ generation ≠ 0 ∧
      s.chunkVersion c.start = version ∧ s.word c.start lengthField = payload.length ∧
      payload.length + headerSize ≤ c.size ∧
      s.memory.read (c.start + headerSize) payload.length = payload
  | .free => s.chunkSize c.start = c.size ∧ s.generation c.start = 0
  | .taken => True

/-- What a chunk shows depends on its own bytes alone. -/
theorem Shows.congr {s s' : Segment} {c : Chunk} (h : s.Shows c) (hsize : headerSize ≤ c.size)
    (hsame : SameOn s s' c.start c.stop) : s'.Shows c := by
  have hb : c.start + headerSize ≤ c.stop := by
    unfold Chunk.stop
    omega
  unfold Shows at *
  cases hc : c.content with
  | live g v payload =>
    rw [hc] at h
    obtain ⟨h1, h2, h3, h4, h5, h6, h7⟩ := h
    refine ⟨?_, ?_, h3, ?_, ?_, h6, ?_⟩
    · rw [hsame.chunkSize (Nat.le_refl _) hb, h1]
    · rw [hsame.generation (Nat.le_refl _) hb, h2]
    · rw [hsame.chunkVersion (Nat.le_refl _) hb, h4]
    · rw [hsame.word (by omega) (by unfold lengthField; unfold headerSize at hb; omega), h5]
    · rw [hsame.read (by omega) (by unfold Chunk.stop; omega), h7]
  | free =>
    rw [hc] at h
    exact ⟨by rw [hsame.chunkSize (Nat.le_refl _) hb, h.1],
      by rw [hsame.generation (Nat.le_refl _) hb, h.2]⟩
  | taken => trivial

/-- What a chunk that is not live shows does not depend on its list and its links. -/
theorem Shows.setWord {s : Segment} {c : Chunk} (h : s.Shows c) (hlive : c.isLive = false)
    {field : Nat} (n : Nat)
    (hfield : field = lengthField ∨ field = nextField ∨ field = previousField) :
    (s.setWord c.start field n).Shows c := by
  unfold lengthField nextField previousField at hfield
  unfold Shows at h ⊢
  cases hc : c.content with
  | live g v payload => simp [Chunk.isLive, hc] at hlive
  | taken => trivial
  | free =>
    rw [hc] at h
    obtain ⟨hsize, hgen⟩ := h
    constructor
    · rw [← hsize, chunkSize, chunkSize,
        word_setWord_of_disjoint _ _ (by unfold sizeField; omega)]
    · rw [← hgen]
      exact Memory.word_setWord_of_disjoint _ _ (by unfold generationField; omega)

/-- A segment shows a layout: its chunks tile the bytes before the cursor, exactly their starts are
marked, each of them shows what it holds, and the live ones are counted. -/
structure Carved (policy : AllocationPolicy) (s : Segment) (cs : List Chunk) : Prop where
  size_eq : s.size = policy.segmentSize
  bump_le : s.bump ≤ s.size
  tiling : Tiling policy.classes.smallestChunk cs s.bump
  marks : ∀ k, s.starts.get k = true ↔ 16 * k ∈ cs.map Chunk.start
  shows : ∀ c ∈ cs, s.Shows c
  liveCount_eq : s.liveCount = cs.countP Chunk.isLive

namespace Carved

variable {policy : AllocationPolicy} {s s' : Segment} {cs pre post : List Chunk} {c d : Chunk}

/-! ## Places of chunks -/

theorem size_ge (hp : policy.Sound) (h : Carved policy s cs) (hc : c ∈ cs) : 32 ≤ c.size :=
  Nat.le_trans hp.classes.le_smallestChunk (h.tiling.smallest_le c hc)

theorem smallest_pos (hp : policy.Sound) : 0 < policy.classes.smallestChunk := by
  have := hp.classes.le_smallestChunk
  omega

/-- All places in a segment are far below the link that leads nowhere. -/
theorem stop_le (hp : policy.Sound) (h : Carved policy s cs) (hc : c ∈ cs) :
    c.stop ≤ 2147483648 := by
  have := h.tiling.stop_le hc
  have := h.bump_le
  have := h.size_eq
  have := hp.le_maxSegmentSize
  unfold maxSegmentSize at this
  omega

theorem size_lt_maxWord (hp : policy.Sound) (h : Carved policy s cs) (hc : c ∈ cs) :
    c.size < maxWord := by
  have hstop := h.stop_le hp hc
  unfold Chunk.stop at hstop
  unfold maxWord
  omega

/-- Chunks that do not start together start at least the smallest size apart. -/
theorem apart (hp : policy.Sound) (h : Carved policy s cs) (hc : c ∈ cs) (hd : d ∈ cs)
    (hne : c.start ≠ d.start) : c.start + 32 ≤ d.start ∨ d.start + 32 ≤ c.start := by
  have hcs := h.size_ge hp hc
  have hds := h.size_ge hp hd
  have := h.tiling.apart hc hd hne
  unfold Chunk.stop at this
  omega

theorem eq_of_start_eq (hp : policy.Sound) (h : Carved policy s cs) (hc : c ∈ cs) (hd : d ∈ cs)
    (heq : c.start = d.start) : c = d :=
  h.tiling.eq_of_start_eq (smallest_pos hp) hc hd heq

/-- An offset that a chunk starts at carries a mark. -/
theorem isStart_iff (h : Carved policy s cs) {offset : Nat} (hal : offset % 16 = 0) :
    s.isStart offset = true ↔ ∃ c ∈ cs, c.start = offset := by
  rw [isStart, h.marks, show 16 * (offset / 16) = offset by omega, List.mem_map]

/-! ## Steps that keep the row of chunks -/

/-- A segment that differs in bytes only, and in these only so that every chunk shows what it did,
has the same layout. -/
theorem congr (h : Carved policy s cs) (hsize : s'.size = s.size) (hbump : s'.bump = s.bump)
    (hstarts : s'.starts = s.starts) (hlive : s'.liveCount = s.liveCount)
    (hshows : ∀ c ∈ cs, s.Shows c → s'.Shows c) : Carved policy s' cs where
  size_eq := by rw [hsize, h.size_eq]
  bump_le := by rw [hbump, hsize]; exact h.bump_le
  tiling := by rw [hbump]; exact h.tiling
  marks := by rw [hstarts]; exact h.marks
  shows := fun c hc => hshows c hc (h.shows c hc)
  liveCount_eq := by rw [hlive, h.liveCount_eq]

theorem setFreeList (h : Carved policy s cs) (list : Nat) (l : FreeList) :
    Carved policy (s.setFreeList list l) cs :=
  h.congr rfl rfl rfl rfl fun _ _ hshow => hshow

/-- In a chunk that is not live the words with its list and its links may be written. -/
theorem setWord (hp : policy.Sound) (h : Carved policy s cs) (hd : d ∈ cs)
    (hlive : d.isLive = false) {field : Nat} (n : Nat)
    (hfield : field = lengthField ∨ field = nextField ∨ field = previousField) :
    Carved policy (s.setWord d.start field n) cs := by
  have hds := h.size_ge hp hd
  refine h.congr (size_setWord ..) (bump_setWord ..) (starts_setWord ..) (liveCount_setWord ..) ?_
  intro c hc hshow
  by_cases heq : c.start = d.start
  · obtain rfl := h.eq_of_start_eq hp hc hd heq
    exact hshow.setWord hlive n hfield
  · -- the word lies in `d`, so the bytes of every other chunk stay
    have hcs := h.size_ge hp hc
    have happ := h.tiling.apart hc hd heq
    refine hshow.congr (by unfold headerSize; omega) ?_
    intro i hi hi'
    apply get_memory_setWord
    unfold lengthField nextField previousField at hfield
    unfold Chunk.stop at *
    omega

/-- The chunks before and after one that changes show what they did. -/
theorem shows_of_sameOn (hp : policy.Sound) (h : Carved policy s (pre ++ d :: post))
    (hsame : ∀ i, i < d.start ∨ d.stop ≤ i → s'.memory.get i = s.memory.get i)
    (hc : c ∈ pre ++ post) : s'.Shows c := by
  have hmem : c ∈ pre ++ d :: post := by
    rcases List.mem_append.1 hc with hc | hc <;> simp [hc]
  have hsize := h.size_ge hp hmem
  have hne := h.tiling.start_ne (smallest_pos hp) hc
  have happ := h.tiling.apart hmem (List.mem_append_right pre List.mem_cons_self) hne
  refine (h.shows c hmem).congr (by unfold headerSize; omega) fun i hi hi' => hsame i ?_
  omega

/-- A chunk comes to hold something else. -/
theorem setContent (hp : policy.Sound) (h : Carved policy s (pre ++ d :: post)) {content : Content}
    (hsize : s'.size = s.size) (hbump : s'.bump = s.bump) (hstarts : s'.starts = s.starts)
    (hsame : ∀ i, i < d.start ∨ d.stop ≤ i → s'.memory.get i = s.memory.get i)
    (hshows : s'.Shows { d with content := content })
    (hcount : s'.liveCount + d.isLive.toNat =
      s.liveCount + ({ d with content := content } : Chunk).isLive.toNat) :
    Carved policy s' (pre ++ { d with content := content } :: post) := by
  have hd : d ∈ pre ++ d :: post := List.mem_append_right pre List.mem_cons_self
  refine ⟨by rw [hsize, h.size_eq], by rw [hbump, hsize]; exact h.bump_le, ?_, ?_, ?_, ?_⟩
  · rw [hbump]
    refine h.tiling.replace [d] [{ d with content := content }] (fun m n hmn => hmn) ?_ ?_
    · simpa using h.tiling.aligned d hd
    · simpa using h.tiling.smallest_le d hd
  · intro k
    rw [hstarts, h.marks, List.map_append, List.map_append, List.map_cons, List.map_cons]
  · intro c hc
    rcases List.mem_append.1 hc with hc | hc
    · exact h.shows_of_sameOn hp hsame (List.mem_append_left _ hc)
    · rcases List.mem_cons.1 hc with rfl | hc
      · exact hshows
      · exact h.shows_of_sameOn hp hsame (List.mem_append_right _ hc)
  · -- the chunk is counted once as it was and once as it is
    have hlive := h.liveCount_eq
    have hone : ∀ e : Chunk, (if e.isLive = true then 1 else 0) = e.isLive.toNat := by
      intro e
      cases e.isLive <;> rfl
    rw [List.countP_append, List.countP_cons, hone] at hlive ⊢
    omega

/-! ## Steps that change the row of chunks -/

/-- Clearing the mark of a chunk leaves the marks of the others. -/
theorem marks_mark_false (hp : policy.Sound) (h : Carved policy s (pre ++ d :: post)) (k : Nat) :
    (s.mark d.start false).starts.get k = true ↔ 16 * k ∈ (pre ++ post).map Chunk.start := by
  have hal := h.tiling.start_mod d (by simp)
  have hnot := h.tiling.start_not_mem (smallest_pos hp)
  unfold mark
  rw [Tape.get_set]
  by_cases hk : k = d.start / 16
  · have heq : 16 * k = d.start := by omega
    rw [if_pos hk, heq]
    constructor
    · intro hfalse
      exact absurd hfalse Bool.false_ne_true
    · intro hmem
      exact absurd hmem hnot
  · have hne : 16 * k ≠ d.start := by omega
    rw [if_neg hk, h.marks]
    simp [hne]

/-- Setting a mark adds the place to those that are marked. -/
theorem marks_mark_true (h : Carved policy s (pre ++ post)) (hal : d.start % 16 = 0) (k : Nat) :
    (s.mark d.start true).starts.get k = true ↔ 16 * k ∈ (pre ++ d :: post).map Chunk.start := by
  unfold mark
  rw [Tape.get_set]
  by_cases hk : k = d.start / 16
  · have heq : 16 * k = d.start := by omega
    rw [if_pos hk, heq]
    simp
  · have hne : 16 * k ≠ d.start := by omega
    rw [if_neg hk, h.marks]
    simp [hne]

/-- Two chunks in hand become one. -/
theorem merge (hp : policy.Sound) (h : Carved policy s (pre ++ c :: d :: post))
    (hc : c.content = .taken) (hd : d.content = .taken) :
    Carved policy (s.mark d.start false) (pre ++ ⟨c.start, c.size + d.size, .taken⟩ :: post) := by
  have hcm : c ∈ pre ++ c :: d :: post := by simp
  have hdm : d ∈ pre ++ c :: d :: post := by simp
  refine ⟨h.size_eq, h.bump_le, ?_, ?_, ?_, ?_⟩
  · -- the two cover a stretch without a gap, so one chunk of their common size covers it too
    refine h.tiling.replace [c, d] [⟨c.start, c.size + d.size, .taken⟩] ?_ ?_ ?_
    · rintro m n ⟨hm, hcd, hn⟩
      refine ⟨hm, ?_⟩
      show c.start + (c.size + d.size) = n
      unfold Tiles Chunk.stop at *
      omega
    · have := h.tiling.aligned c hcm
      have := h.tiling.aligned d hdm
      simp only [List.mem_singleton, forall_eq]
      omega
    · have := h.tiling.smallest_le c hcm
      simp only [List.mem_singleton, forall_eq]
      omega
  · intro k
    rw [show pre ++ c :: d :: post = (pre ++ [c]) ++ d :: post by simp] at h
    rw [h.marks_mark_false hp]
    simp
  · refine forall_mem_replace [c, d] [⟨c.start, c.size + d.size, .taken⟩] h.shows ?_
    intro e he
    obtain rfl := List.mem_singleton.1 he
    -- a chunk in hand shows nothing
    trivial
  · have hlive := h.liveCount_eq
    rw [liveCount_mark, hlive]
    simp [Chunk.isLive, hc, hd]

/-- A chunk in hand becomes two. -/
theorem split (h : Carved policy s (pre ++ d :: post)) (hd : d.content = .taken) {n : Nat}
    (hal : n % 16 = 0) (hn : policy.classes.smallestChunk ≤ n)
    (hrest : policy.classes.smallestChunk ≤ d.size - n) (hle : n ≤ d.size) :
    Carved policy (s.mark (d.start + n) true)
      (pre ++ ⟨d.start, n, .taken⟩ :: ⟨d.start + n, d.size - n, .taken⟩ :: post) := by
  have hdm : d ∈ pre ++ d :: post := by simp
  have hsize := h.tiling.aligned d hdm
  have hstart := h.tiling.start_mod d hdm
  refine ⟨h.size_eq, h.bump_le, ?_, ?_, ?_, ?_⟩
  · refine h.tiling.replace [d] [⟨d.start, n, .taken⟩, ⟨d.start + n, d.size - n, .taken⟩] ?_ ?_ ?_
    · rintro m k ⟨hm, hk⟩
      refine ⟨hm, rfl, ?_⟩
      show d.start + n + (d.size - n) = k
      unfold Tiles Chunk.stop at *
      omega
    · simp only [List.mem_cons, List.not_mem_nil, or_false, forall_eq_or_imp, forall_eq]
      omega
    · simp only [List.mem_cons, List.not_mem_nil, or_false, forall_eq_or_imp, forall_eq]
      omega
  · intro k
    rw [show pre ++ d :: post = (pre ++ [d]) ++ post by simp] at h
    rw [h.marks_mark_true (d := ⟨d.start + n, d.size - n, .taken⟩) (by simp only; omega)]
    simp
  · refine forall_mem_replace [d] [⟨d.start, n, .taken⟩, ⟨d.start + n, d.size - n, .taken⟩]
      h.shows ?_
    intro e he
    rcases List.mem_pair.1 he with rfl | rfl
    · trivial
    · trivial
  · have hlive := h.liveCount_eq
    rw [liveCount_mark, hlive]
    simp [Chunk.isLive, hd]

/-- The cursor moves over bytes that become a chunk in hand. -/
theorem extend (h : Carved policy s cs) {n : Nat} (hal : n % 16 = 0)
    (hn : policy.classes.smallestChunk ≤ n) (hroom : s.bump + n ≤ s.size) :
    Carved policy ({ s with bump := s.bump + n }.mark s.bump true)
      (cs ++ [⟨s.bump, n, .taken⟩]) := by
  refine ⟨h.size_eq, hroom, ⟨?_, ?_, ?_⟩, ?_, ?_, ?_⟩
  · exact (tiles_append _ _ _ _).2 ⟨s.bump, h.tiling.tiles, rfl, rfl⟩
  · intro c hc
    rcases List.mem_append.1 hc with hc | hc
    · exact h.tiling.aligned c hc
    · rw [List.mem_singleton.1 hc]
      exact hal
  · intro c hc
    rcases List.mem_append.1 hc with hc | hc
    · exact h.tiling.smallest_le c hc
    · rw [List.mem_singleton.1 hc]
      exact hn
  · -- the new mark comes behind all others
    intro k
    rw [← List.append_nil cs] at h
    exact h.marks_mark_true (d := ⟨s.bump, n, .taken⟩) h.tiling.bump_mod k
  · intro c hc
    rcases List.mem_append.1 hc with hc | hc
    · exact h.shows c hc
    · rw [List.mem_singleton.1 hc]
      trivial
  · rw [liveCount_mark, h.liveCount_eq]
    simp [Chunk.isLive]

/-- The cursor moves back over the last chunk, which is in hand. -/
theorem retract (hp : policy.Sound) (h : Carved policy s (pre ++ [d])) (hd : d.content = .taken) :
    Carved policy { s.mark d.start false with bump := d.start } pre := by
  obtain ⟨m, hpre, hm, hstop⟩ := (tiles_append _ _ _ _).1 h.tiling.tiles
  have hle : d.start ≤ s.size := by
    have := h.tiling.stop_le (c := d) (by simp)
    have := h.bump_le
    unfold Chunk.stop at *
    omega
  refine ⟨h.size_eq, hle, ⟨?_, ?_, ?_⟩, ?_, ?_, ?_⟩
  · rw [hm]
    exact hpre
  · exact fun c hc => h.tiling.aligned c (List.mem_append_left _ hc)
  · exact fun c hc => h.tiling.smallest_le c (List.mem_append_left _ hc)
  · intro k
    have := h.marks_mark_false hp k
    rwa [List.append_nil] at this
  · exact fun c hc => h.shows c (List.mem_append_left _ hc)
  · have hlive := h.liveCount_eq
    simp only [liveCount_mark]
    rw [hlive]
    simp [Chunk.isLive, hd]

/-- The last chunk that starts before a given one is the one next to it. -/
theorem startBefore?_eq (hp : policy.Sound) (h : Carved policy s (pre ++ d :: post)) :
    s.startBefore? d.start = pre.getLast?.map Chunk.start := by
  have hal := h.tiling.start_mod
  unfold startBefore?
  rcases List.eq_nil_or_concat pre with rfl | ⟨qs, q, rfl⟩
  · obtain ⟨hzero, -⟩ := h.tiling.tiles
    rw [(s.starts.last?_eq_none_iff _).2 fun j hj => by omega]
    rfl
  · rw [List.concat_eq_append] at *
    have hq : q ∈ (qs ++ [q]) ++ d :: post := by simp
    have hqal := hal q hq
    have hdal := hal d (by simp)
    have hqsize := h.size_ge hp hq
    -- the row has no gap between `q` and `d`
    have hadj : q.stop = d.start := by
      obtain ⟨m, hqs, hm, -⟩ := (tiles_append _ _ _ _).1 h.tiling.tiles
      obtain ⟨k, -, -, hk⟩ := (tiles_append _ _ _ _).1 hqs
      unfold Tiles at hk
      omega
    have hlast : s.starts.last? (d.start / 16) = some (q.start / 16) := by
      rw [Marks.last?_eq_some_iff]
      refine ⟨by unfold Chunk.stop at hadj; omega, ?_, ?_⟩
      · exact (h.isStart_iff hqal).2 ⟨q, hq, rfl⟩
      · intro j hqj hjd
        -- a chunk that starts after `q` starts after its end, where `d` does
        rw [Bool.eq_false_iff]
        intro hmark
        obtain ⟨e, he, hej⟩ := List.mem_map.1 ((h.marks j).1 hmark)
        have hapart := h.tiling.apart he hq (by omega)
        unfold Chunk.stop at *
        omega
    rw [hlast, List.getLast?_append]
    simp only [Option.map_some, List.getLast?_singleton, Option.some_or, Option.some.injEq]
    omega

end Carved

end Segment

end ObjectPile
