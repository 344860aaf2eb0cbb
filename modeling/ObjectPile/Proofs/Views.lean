/-
# Views of segments

A view is what a segment amounts to once its bytes are left aside: the row of its chunks with what
they hold, and its lists of free chunks. A segment *represents* a view if its bytes, its marks, its
cursor, its counter and its list heads all say so. Everything that storing and releasing do to a
segment is put together from a few small steps, and for each of them this module tells what it does
to the view:

* `Represents.takeFree`, `Represents.takeLive` : a chunk comes into the hand of an operation,
* `Represents.hold`, `Represents.addFree` : a chunk in hand is filled or given back,
* `Represents.merge`, `Represents.split` : two chunks in hand become one, one becomes two,
* `Represents.extend`, `Represents.retract` : a chunk in hand is cut off at the cursor and dissolved.

In the middle of an operation a chunk may be in hand; a view is `Settled` if none is.
-/
import ObjectPile.Proofs.FreeLists

namespace ObjectPile

/-- What a segment holds: its chunks in order, and its lists of free chunks by their offsets. -/
structure View where
  chunks : List Chunk
  lists : Nat → List Nat

namespace View

/-- No operation has a chunk in hand. -/
def Settled (v : View) : Prop := ∀ c ∈ v.chunks, c.content ≠ .taken

/-- The chunks with payloads. -/
def live (v : View) : List Chunk := v.chunks.filter Chunk.isLive

end View

namespace Segment

/-- **The segment represents the view.** -/
structure Represents (policy : AllocationPolicy) (s : Segment) (v : View) : Prop where
  carved : Carved policy s v.chunks
  listed : Listed policy s v.chunks v.lists

namespace Represents

variable {policy : AllocationPolicy} {s s' : Segment} {cs pre post : List Chunk}
  {lists : Nat → List Nat} {c d : Chunk}

/-! ## Chunks off the lists -/

theorem mem_of_mem_append (hc : c ∈ pre ++ post) : c ∈ pre ++ d :: post := by
  rcases List.mem_append.1 hc with hc | hc
  · exact List.mem_append_left _ hc
  · exact List.mem_append_right _ (List.mem_cons_of_mem _ hc)

/-- Of the chunks in a row only the given one starts where it does. -/
theorem mem_append_of_start_ne (hc : c ∈ pre ++ d :: post) (hne : c.start ≠ d.start) :
    c ∈ pre ++ post := by
  rcases List.mem_append.1 hc with hc | hc
  · exact List.mem_append_left _ hc
  · rcases List.mem_cons.1 hc with rfl | hc
    · exact absurd rfl hne
    · exact List.mem_append_right _ hc

/-- Only free chunks are on lists. -/
theorem not_mem_of_content_ne (hp : policy.Sound) (h : Represents policy s ⟨cs, lists⟩)
    (hc : c ∈ cs) (hne : c.content ≠ .free) (i : Nat) : c.start ∉ lists i := by
  intro hmem
  obtain ⟨d, hd, hstart, hfree, -⟩ := h.listed.free_of_mem i _ hmem
  obtain rfl := h.carved.eq_of_start_eq hp hd hc hstart
  exact hne hfree

/-- The lists and links of the other chunks read as they did if the bytes outside one stay. -/
theorem word_eq (hp : policy.Sound) (h : Carved policy s (pre ++ d :: post))
    (hsame : ∀ i, i < d.start ∨ d.stop ≤ i → s'.memory.get i = s.memory.get i)
    (hc : c ∈ pre ++ post) {field : Nat} (hfield : field ∈ linkFields) :
    s'.word c.start field = s.word c.start field := by
  have hmem : c ∈ pre ++ d :: post := mem_of_mem_append hc
  have hsize := h.size_ge hp hmem
  have hne := h.tiling.start_ne (Carved.smallest_pos hp) hc
  have happ := h.tiling.apart hmem (List.mem_append_right pre List.mem_cons_self) hne
  have hle : field ≤ 20 := by
    simp only [linkFields, lengthField, nextField, previousField, List.mem_cons, List.not_mem_nil,
      or_false] at hfield
    omega
  refine Memory.word_congr fun i hi hi' => hsame i ?_
  unfold Chunk.stop at *
  omega

/-! ## A chunk changes hands -/

/-- A chunk that is on no list comes to hold something else. -/
theorem setContent (hp : policy.Sound) (h : Represents policy s ⟨pre ++ d :: post, lists⟩)
    {content : Content} (hsize : s'.size = s.size) (hbump : s'.bump = s.bump)
    (hstarts : s'.starts = s.starts) (hlists : s'.freeLists = s.freeLists)
    (hsame : ∀ i, i < d.start ∨ d.stop ≤ i → s'.memory.get i = s.memory.get i)
    (hshows : s'.Shows { d with content := content })
    (hcount : s'.liveCount + d.isLive.toNat =
      s.liveCount + ({ d with content := content } : Chunk).isLive.toNat)
    (hnot : ∀ i, d.start ∉ lists i)
    (hfree : content = .free → s'.word d.start lengthField = untracked) :
    Represents policy s' ⟨pre ++ { d with content := content } :: post, lists⟩ := by
  have hcarved := h.carved.setContent hp hsize hbump hstarts hsame hshows hcount
  refine ⟨hcarved, h.listed.congr hlists ?_ ?_ ?_⟩
  · intro i o ho field hfield
    obtain ⟨c, hc, rfl⟩ := h.listed.exists_start ho
    have hne : c.start ≠ d.start := fun heq => hnot i (heq ▸ ho)
    exact word_eq hp h.carved hsame (mem_append_of_start_ne hc hne) hfield
  · intro i c hc _ hmem
    have hne : c.start ≠ d.start := fun heq => hnot i (heq ▸ hmem)
    exact mem_of_mem_append (mem_append_of_start_ne hc hne)
  · intro c hc hcfree
    have hother : c ∈ pre ++ post → s'.word c.start lengthField = untracked ∨
        (c ∈ pre ++ d :: post ∧ s'.word c.start lengthField = s.word c.start lengthField) :=
      fun hc => .inr ⟨mem_of_mem_append hc, word_eq hp h.carved hsame hc (by decide)⟩
    rcases List.mem_append.1 hc with hc | hc
    · exact hother (List.mem_append_left _ hc)
    · rcases List.mem_cons.1 hc with rfl | hc
      · exact .inl (hfree hcfree)
      · exact hother (List.mem_append_right _ hc)

/-- **A free chunk is taken off its list.** -/
theorem takeFree (hp : policy.Sound) (h : Represents policy s ⟨pre ++ d :: post, lists⟩)
    (hd : d.content = .free) :
    Represents policy (s.unlink d.start)
      ⟨pre ++ { d with content := .taken } :: post, unlinkFrom lists d.start⟩ := by
  obtain ⟨hcarved, hlisted, -⟩ := h.listed.unlink hp h.carved (d := d) (by simp) hd
  have hunlinked : Represents policy (s.unlink d.start)
      ⟨pre ++ d :: post, unlinkFrom lists d.start⟩ := ⟨hcarved, hlisted⟩
  -- the bytes stay: what the chunk in hand shows is nothing, and so true
  refine hunlinked.setContent hp rfl rfl rfl rfl (fun _ _ => rfl) trivial ?_
    (h.listed.not_mem_unlinkFrom d.start) nofun
  rw [Chunk.isLive_eq_false_of_free hd, Chunk.isLive_eq_false_of_taken rfl]

/-- **A live chunk is taken out of the count.** -/
theorem takeLive (hp : policy.Sound) (h : Represents policy s ⟨pre ++ d :: post, lists⟩)
    (hd : d.isLive = true) :
    Represents policy { s with liveCount := s.liveCount - 1 }
      ⟨pre ++ { d with content := .taken } :: post, lists⟩ := by
  have hnotfree : d.content ≠ .free := fun hfree => by
    simp [Chunk.isLive_eq_false_of_free hfree] at hd
  have hpos : 0 < s.liveCount := by
    rw [h.carved.liveCount_eq]
    exact List.countP_pos_iff.2 ⟨d, by simp, hd⟩
  refine h.setContent hp rfl rfl rfl rfl (fun _ _ => rfl) trivial ?_
    (h.not_mem_of_content_ne hp (by simp) hnotfree) nofun
  rw [hd, Chunk.isLive_eq_false_of_taken rfl]
  simp only [Bool.toNat_true, Bool.toNat_false]
  omega

/-- **A chunk in hand becomes a free one on its list.** -/
theorem addFree (hp : policy.Sound) (h : Represents policy s ⟨pre ++ d :: post, lists⟩)
    (hd : d.content = .taken) :
    Represents policy (s.addFree policy d.start d.size)
      ⟨pre ++ { d with content := .free } :: post, fileOn policy lists d.start d.size⟩ := by
  have hdm : d ∈ pre ++ d :: post := by simp
  have hmod := h.carved.tiling.aligned d hdm
  have hstop := h.carved.stop_le hp hdm
  have hsize := h.carved.size_ge hp hdm
  have hsmall : d.size + 16 ≤ 4294967296 := by
    unfold Chunk.stop at hstop
    omega
  -- first the header is written, and then the chunk filed, which the header says it is not yet
  have hword : (s.writeHeader d.start d.size .raw untracked 0).word d.start lengthField =
      untracked := word_lengthField_writeHeader _ _ _ _ _ (by decide)
  have hwritten : Represents policy (s.writeHeader d.start d.size .raw untracked 0)
      ⟨pre ++ { d with content := .free } :: post, lists⟩ := by
    refine h.setContent hp (size_writeHeader ..) (bump_writeHeader ..) (starts_writeHeader ..)
      (freeLists_writeHeader ..) ?_ ?_ ?_
      (h.not_mem_of_content_ne hp hdm (by simp [hd])) (fun _ => hword)
    · intro i hi
      apply get_memory_writeHeader
      unfold headerSize
      unfold Chunk.stop at hi
      omega
    · exact ⟨chunkSize_writeHeader _ _ _ _ _ hmod hsmall,
        generation_writeHeader _ _ _ _ _ (by decide)⟩
    · rw [liveCount_writeHeader, Chunk.isLive_eq_false_of_taken hd,
        Chunk.isLive_eq_false_of_free rfl]
  have hmem : ({ d with content := .free } : Chunk) ∈ pre ++ { d with content := .free } :: post :=
    by simp
  refine ⟨?_, hwritten.listed.file (d := { d with content := .free }) hp hwritten.carved hmem rfl
    hword⟩
  refine hwritten.carved.file hp hmem (Chunk.isLive_eq_false_of_free rfl) ?_ _
  intro i y hy
  rw [hwritten.listed.head] at hy
  exact hwritten.listed.exists_not_live (List.mem_of_head? hy)

/-- **A chunk in hand is filled with a payload.** -/
theorem hold (hp : policy.Sound) (h : Represents policy s ⟨pre ++ d :: post, lists⟩)
    (hd : d.content = .taken) {payload : List UInt8} (hroom : payload.length + headerSize ≤ d.size)
    (version : CodecVersion) {generation : Nat} (hgen : generation ≠ 0)
    (hmax : generation ≤ maxWord) :
    Represents policy
      { s.writeHeader d.start d.size version payload.length generation with
        memory := (s.writeHeader d.start d.size version payload.length generation).memory.write
          (d.start + headerSize) payload
        liveCount := (s.writeHeader d.start d.size version payload.length generation).liveCount + 1 }
      ⟨pre ++ { d with content := .live generation version payload } :: post, lists⟩ := by
  have hdm : d ∈ pre ++ d :: post := by simp
  have hmod := h.carved.tiling.aligned d hdm
  have hstop := h.carved.stop_le hp hdm
  unfold Chunk.stop at hstop
  have hsmall : d.size + 16 ≤ 4294967296 := by omega
  have hlength : payload.length < 4294967296 := by omega
  generalize hs₁ : s.writeHeader d.start d.size version payload.length generation = s₁
  -- the payload lies behind the header, which therefore reads as it was written
  have hheader : SameOn s₁ { s₁ with
      memory := s₁.memory.write (d.start + headerSize) payload
      liveCount := s₁.liveCount + 1 } d.start (d.start + headerSize) :=
    fun i _ hi => Tape.get_write_of_lt _ _ hi
  refine h.setContent hp ?_ ?_ ?_ ?_ ?_ ?_ ?_
    (h.not_mem_of_content_ne hp hdm (by simp [hd])) nofun
  · rw [← hs₁, size_writeHeader]
  · rw [← hs₁, bump_writeHeader]
  · rw [← hs₁, starts_writeHeader]
  · rw [← hs₁, freeLists_writeHeader]
  · intro i hi
    rw [← hs₁]
    exact get_memory_writeChunk _ _ _ _ hroom hi
  · refine ⟨?_, ?_, hgen, ?_, ?_, hroom, Tape.read_write_self ..⟩
    · rw [hheader.chunkSize (Nat.le_refl _) (Nat.le_refl _), ← hs₁,
        chunkSize_writeHeader _ _ _ _ _ hmod hsmall]
    · rw [hheader.generation (Nat.le_refl _) (Nat.le_refl _), ← hs₁,
        generation_writeHeader _ _ _ _ _ hmax]
    · rw [hheader.chunkVersion (Nat.le_refl _) (Nat.le_refl _), ← hs₁,
        chunkVersion_writeHeader _ _ _ _ _ hmod hsmall]
    · rw [hheader.word (Nat.le_add_right _ _) (by simp only [lengthField, headerSize]; omega), ← hs₁,
        word_lengthField_writeHeader _ _ _ _ _ hlength]
  · rw [← hs₁, liveCount_writeHeader, Chunk.isLive_eq_false_of_taken hd]
    rfl

/-! ## The row of chunks changes -/

/-- The lists stay while no byte is written and the free chunks stay. -/
theorem listed_of_free_iff {cs' : List Chunk} (h : Listed policy s cs lists)
    (hmemory : s'.memory = s.memory) (hlists : s'.freeLists = s.freeLists)
    (hfree : ∀ c : Chunk, c.content = .free → (c ∈ cs' ↔ c ∈ cs)) :
    Listed policy s' cs' lists := by
  have hword : ∀ o field, s'.word o field = s.word o field := fun o field => by
    rw [word, hmemory, ← word]
  exact h.congr hlists (fun _ o _ field _ => hword o field)
    (fun _ c hc hcfree _ => (hfree c hcfree).2 hc)
    fun c hc hcfree => .inr ⟨(hfree c hcfree).1 hc, hword _ _⟩

/-- Two chunks in hand become one. -/
theorem merge (hp : policy.Sound) (h : Represents policy s ⟨pre ++ c :: d :: post, lists⟩)
    (hc : c.content = .taken) (hd : d.content = .taken) :
    Represents policy (s.mark d.start false)
      ⟨pre ++ ⟨c.start, c.size + d.size, .taken⟩ :: post, lists⟩ := by
  refine ⟨h.carved.merge hp hc hd, listed_of_free_iff h.listed rfl rfl ?_⟩
  intro e he
  have hec := Chunk.ne_of_free_of_taken he hc
  have hed := Chunk.ne_of_free_of_taken he hd
  have hen : e ≠ ⟨c.start, c.size + d.size, .taken⟩ := Chunk.ne_of_free_of_taken he rfl
  simp [hec, hed, hen]

/-- A chunk in hand becomes two. -/
theorem split (h : Represents policy s ⟨pre ++ d :: post, lists⟩) (hd : d.content = .taken)
    {n : Nat} (hal : n % 16 = 0) (hn : policy.classes.smallestChunk ≤ n)
    (hrest : policy.classes.smallestChunk ≤ d.size - n) (hle : n ≤ d.size) :
    Represents policy (s.mark (d.start + n) true)
      ⟨pre ++ ⟨d.start, n, .taken⟩ :: ⟨d.start + n, d.size - n, .taken⟩ :: post, lists⟩ := by
  refine ⟨h.carved.split hd hal hn hrest hle, listed_of_free_iff h.listed rfl rfl ?_⟩
  intro e he
  have hed := Chunk.ne_of_free_of_taken he hd
  have hen : e ≠ ⟨d.start, n, .taken⟩ := Chunk.ne_of_free_of_taken he rfl
  have hem : e ≠ ⟨d.start + n, d.size - n, .taken⟩ := Chunk.ne_of_free_of_taken he rfl
  simp [hed, hen, hem]

/-- The bytes at the cursor become a chunk in hand. -/
theorem extend (h : Represents policy s ⟨cs, lists⟩) {n : Nat} (hal : n % 16 = 0)
    (hn : policy.classes.smallestChunk ≤ n) (hroom : s.bump + n ≤ s.size) :
    Represents policy ({ s with bump := s.bump + n }.mark s.bump true)
      ⟨cs ++ [⟨s.bump, n, .taken⟩], lists⟩ := by
  refine ⟨h.carved.extend hal hn hroom, listed_of_free_iff h.listed rfl rfl ?_⟩
  intro e he
  have hen : e ≠ ⟨s.bump, n, .taken⟩ := Chunk.ne_of_free_of_taken he rfl
  simp [hen]

/-- The last chunk is in hand and its bytes go back behind the cursor. -/
theorem retract (hp : policy.Sound) (h : Represents policy s ⟨pre ++ [d], lists⟩)
    (hd : d.content = .taken) :
    Represents policy { s.mark d.start false with bump := d.start } ⟨pre, lists⟩ := by
  refine ⟨h.carved.retract hp hd, listed_of_free_iff h.listed rfl rfl ?_⟩
  intro e he
  have hed := Chunk.ne_of_free_of_taken he hd
  simp [hed]

end Represents

/-! ## New segments -/

/-- A new segment represents the view without chunks. -/
theorem represents_empty (policy : AllocationPolicy) :
    Represents policy (empty policy) ⟨[], fun _ => []⟩ := by
  have hlist : ∀ i, (empty policy).freeList i = {} := by
    intro i
    simp only [freeList, empty, Array.getD_eq_getD_getElem?, Array.getElem?_replicate]
    split <;> rfl
  constructor
  · refine ⟨rfl, Nat.zero_le _, ⟨rfl, by simp, by simp⟩, ?_, by simp, rfl⟩
    intro k
    simp [empty]
  · refine ⟨?_, ?_, ?_, fun i => Nat.zero_le _, fun i => List.nodup_nil, fun i => trivial, by simp,
      by simp⟩
    · simp [empty]
    · intro i
      rw [hlist]
      rfl
    · intro i
      rw [hlist]
      rfl

end Segment

end ObjectPile
